import Mathlib.Algebra.BigOperators.Fin
import Mathlib.Algebra.Order.BigOperators.Group.Finset
import PipeFabric.Library.TransitionSystem

/-!
# The thread pool

The workers of the pool take jobs from a queue and sleep on a condition variable while
there are none; the destructor sets a flag, wakes them and joins them.  What a thread does
under the mutex is one step, but for the wait of `dequeue`: the destructor sets the flag
without the mutex, and may do so between the predicate of the wait and the sleep.
-/

namespace PipeFabric.ThreadPool

open TransitionSystem

/-- A job and the jobs that it enqueues while it runs. -/
inductive Job (Label : Type) where
  | mk (label : Label) (enqueues : List (Job Label))

namespace Job

variable {Label : Type}

def label : Job Label → Label
  | .mk label _ => label

def enqueues : Job Label → List (Job Label)
  | .mk _ enqueues => enqueues

end Job

/-- Where a worker is: in front of the mutex in `dequeue`, between the predicate and the
sleep, asleep, woken but without the mutex, in a job that enqueues some more, at the
end. -/
inductive Worker (Label : Type) where
  | entering
  | waiting
  | asleep
  | woken
  | running (enqueues : List (Job Label))
  | finished

/-- Where the destructor is. -/
inductive Destructor where
  | notCalled
  | shutdownSet
  | notified
  | joined
  deriving DecidableEq

namespace Worker

variable {Label : Type}

def isAsleep : Worker Label → Bool
  | .asleep => true
  | _ => false

def isFinished : Worker Label → Bool
  | .finished => true
  | _ => false

/-- The worker will look at the queue again. -/
def isAwake : Worker Label → Bool
  | .entering => true
  | .woken => true
  | .running _ => true
  | _ => false

end Worker

/-- What the threads share and where each of them is.  `mx` is the worker that has the
mutex between two steps.  `enqueued` and `executed` are not part of the program: the jobs
that were enqueued and those that were begun, in this order. -/
structure State (n : Nat) (Label : Type) where
  mx : Option (Fin n)
  queue : List (Job Label)
  shutdown : Bool
  pool : Fin n → Worker Label
  destructor : Destructor
  enqueued : List (Job Label)
  executed : List (Job Label)

/-- A new pool; `n` is `hardware_concurrency`. -/
def init (n : Nat) (Label : Type) : State n Label :=
  ⟨none, [], false, fun _ => .entering, .notCalled, [], []⟩

section

variable {n : Nat} {Label : Type}

/-- A worker goes on. -/
def State.moved (state : State n Label) (worker : Fin n) (place : Worker Label) :
    State n Label :=
  { state with pool := Function.update state.pool worker place }

/-- `notify_one` wakes one of the workers that sleep, if any does. -/
def notify_one (state : State n Label) (chosen : Option (Fin n)) : Option (State n Label) :=
  match chosen with
  | some worker =>
      if (state.pool worker).isAsleep then some (state.moved worker .woken) else none
  | none => if ∀ worker, (state.pool worker).isAsleep = false then some state else none

/-- `notify_all`. -/
def notify_all (state : State n Label) : State n Label :=
  { state with
    pool := fun worker =>
      if (state.pool worker).isAsleep then .woken else state.pool worker }

/-- `enqueue`. -/
def enqueue (state : State n Label) (job : Job Label) (chosen : Option (Fin n)) :
    Option (State n Label) :=
  if state.mx.isSome then none
  else
    notify_one { state with
      queue := state.queue ++ [job], enqueued := state.enqueued ++ [job] } chosen

/-- `dequeue` from the lock to the unlock, or to the sleep of `wait`. -/
def dequeue (state : State n Label) (worker : Fin n) : Option (State n Label) :=
  if state.mx.isSome then none
  else if state.shutdown || !state.queue.isEmpty then
    match state.queue with
    | [] => some (state.moved worker .finished)
    | job :: queue =>
        some ({ state with queue := queue, executed := state.executed ++ [job] }.moved worker
          (.running job.enqueues))
  else some ({ state with mx := some worker }.moved worker .waiting)

/-- The next step of `worker_thread`; `chosen` is whom a job wakes that it enqueues. -/
def worker_thread (state : State n Label) (worker : Fin n) (chosen : Option (Fin n)) :
    Option (State n Label) :=
  match state.pool worker with
  | .entering => dequeue state worker
  | .waiting => some ({ state with mx := none }.moved worker .asleep)
  | .asleep => none
  | .woken => dequeue state worker
  | .running [] => some (state.moved worker .entering)
  | .running (job :: enqueues) =>
      (enqueue state job chosen).map fun next => next.moved worker (.running enqueues)
  | .finished => none

/-- The next step of the destructor; `join_all` waits for the end of all workers. -/
def destroy (state : State n Label) : Option (State n Label) :=
  match state.destructor with
  | .notCalled => some { state with shutdown := true, destructor := .shutdownSet }
  | .shutdownSet =>
      if state.mx.isSome then none
      else some { notify_all state with destructor := .notified }
  | .notified =>
      if ∀ worker, (state.pool worker).isFinished then
        some { state with destructor := .joined }
      else none
  | .joined => none

/-- The steps of the threads; `wakeUp` is a spurious one, and `enqueue` is called by any
other thread. -/
inductive Action (n : Nat) (Label : Type) where
  | work (worker : Fin n) (chosen : Option (Fin n))
  | wakeUp (worker : Fin n)
  | enqueue (job : Job Label) (chosen : Option (Fin n))
  | destroy

def step (state : State n Label) : Action n Label → Option (State n Label)
  | .work worker chosen => worker_thread state worker chosen
  | .wakeUp worker =>
      if (state.pool worker).isAsleep then some (state.moved worker .woken) else none
  | .enqueue job chosen => enqueue state job chosen
  | .destroy => destroy state

/-- Other threads do not use the pool once its destructor has begun. -/
def Alive (state : State n Label) : Action n Label → Prop
  | .enqueue _ _ => state.destructor = .notCalled
  | _ => True

instance (state : State n Label) : (action : Action n Label) → Decidable (Alive state action)
  | .enqueue _ _ => inferInstanceAs (Decidable (state.destructor = .notCalled))
  | .work _ _ => inferInstanceAs (Decidable True)
  | .wakeUp _ => inferInstanceAs (Decidable True)
  | .destroy => inferInstanceAs (Decidable True)

end

/-! ## The invariant -/

section

variable {n : Nat} {Label : Type}

structure Inv (state : State n Label) : Prop where
  fifo : state.enqueued = state.executed ++ state.queue
  flag : state.shutdown = true ↔ state.destructor ≠ .notCalled
  mutex : ∀ worker, state.mx = some worker ↔ state.pool worker = .waiting
  empty : state.mx.isSome → state.queue = []
  /-- A job that is queued will be found. -/
  awake : state.queue ≠ [] → ∃ worker, (state.pool worker).isAwake
  late : ∀ worker, (state.pool worker).isFinished → state.shutdown = true
  /-- Behind `notify_all` no worker sleeps or goes to sleep. -/
  noSleep : state.destructor = .notified ∨ state.destructor = .joined →
    ∀ worker, (state.pool worker).isAwake ∨ (state.pool worker).isFinished
  joined : state.destructor = .joined → ∀ worker, (state.pool worker).isFinished

variable {state next : State n Label} {worker : Fin n} {place : Worker Label}

theorem Inv.init (n : Nat) (Label : Type) : Inv (init n Label) := by
  constructor
  · rfl
  · simp [ThreadPool.init]
  · intro worker
    simp [ThreadPool.init]
  · intro taken
    cases taken
  · intro queued
    exact absurd rfl queued
  · intro worker finished
    cases finished
  · intro ended
    simp [ThreadPool.init] at ended
  · intro ended
    simp [ThreadPool.init] at ended

theorem Worker.ne_waiting
    (known : (place.isAwake || place.isAsleep || place.isFinished) = true) :
    place ≠ .waiting := by
  rintro rfl
  cases known

theorem State.moved_pool (state : State n Label) (worker other : Fin n)
    (place : Worker Label) : (state.moved worker place).pool other =
      if other = worker then place else state.pool other :=
  Function.update_apply _ _ _ _

/-- A worker that has not the mutex goes on, and looks at the queue again. -/
theorem Inv.moved (inv : Inv state) (old : (state.pool worker).isFinished = false)
    (free : state.pool worker ≠ .waiting) (new : place.isAwake = true) :
    Inv (state.moved worker place) := by
  constructor
  · exact inv.fifo
  · exact inv.flag
  · intro other
    rw [State.moved_pool]
    split
    next same =>
      subst same
      have apart : place ≠ .waiting := Worker.ne_waiting (by rw [new]; rfl)
      exact iff_of_false (fun taken => free ((inv.mutex other).mp taken)) apart
    next => exact inv.mutex other
  · exact inv.empty
  · intro _
    refine ⟨worker, ?_⟩
    rw [State.moved_pool, if_pos rfl]
    exact new
  · intro other
    rw [State.moved_pool]
    split
    next =>
      intro finished
      cases place <;> cases new <;> cases finished
    next => exact inv.late other
  · intro ended other
    rw [State.moved_pool]
    split
    next => exact .inl new
    next => exact inv.noSleep ended other
  · intro ended
    rw [inv.joined ended worker] at old
    cases old

/-- A worker that finds the queue empty behind the flag ends. -/
theorem Inv.finish (inv : Inv state) (free : state.pool worker ≠ .waiting)
    (flag : state.shutdown = true) (empty : state.queue = []) :
    Inv (state.moved worker .finished) := by
  constructor
  · exact inv.fifo
  · exact inv.flag
  · intro other
    rw [State.moved_pool]
    split
    next same =>
      subst same
      exact iff_of_false (fun taken => free ((inv.mutex other).mp taken))
        (Worker.ne_waiting rfl)
    next => exact inv.mutex other
  · exact inv.empty
  · intro queued
    exact absurd empty queued
  · intro _ _
    exact flag
  · intro ended other
    rw [State.moved_pool]
    split
    next => exact .inr rfl
    next => exact inv.noSleep ended other
  · intro ended other
    rw [State.moved_pool]
    split
    next => rfl
    next => exact inv.joined ended other

/-- A worker takes the first job. -/
theorem Inv.take (inv : Inv state) {job : Job Label} {queue : List (Job Label)}
    (first : state.queue = job :: queue) :
    Inv { state with queue := queue, executed := state.executed ++ [job] } := by
  constructor
  · rw [inv.fifo, first]
    exact (List.append_assoc _ [job] queue).symm
  · exact inv.flag
  · exact inv.mutex
  · intro taken
    have nothing := inv.empty taken
    rw [first] at nothing
    cases nothing
  · intro _
    apply inv.awake
    rw [first]
    exact List.cons_ne_nil _ _
  · exact inv.late
  · exact inv.noSleep
  · exact inv.joined

/-- A worker that finds the queue empty keeps the mutex until it sleeps. -/
theorem Inv.wait (inv : Inv state) (free : state.mx = none)
    (flag : state.shutdown = false) (empty : state.queue = []) :
    Inv ({ state with mx := some worker }.moved worker .waiting) := by
  have running : state.destructor = .notCalled := by
    by_contra ended
    rw [inv.flag.mpr ended] at flag
    cases flag
  constructor
  · exact inv.fifo
  · exact inv.flag
  · intro other
    rw [State.moved_pool]
    split
    next same => exact iff_of_true (congrArg some same.symm) rfl
    next different =>
      refine iff_of_false (fun same => different (Option.some.inj same).symm) ?_
      intro waits
      rw [(inv.mutex other).mpr waits] at free
      cases free
  · intro _
    exact empty
  · intro queued
    exact absurd empty queued
  · intro other
    rw [State.moved_pool]
    split
    next =>
      intro finished
      cases finished
    next => exact inv.late other
  · intro ended
    rw [State.moved, running] at ended
    rcases ended with ended | ended <;> cases ended
  · intro ended
    rw [State.moved, running] at ended
    cases ended

/-- The worker that has the mutex sleeps. -/
theorem Inv.sleep (inv : Inv state) (waits : state.pool worker = .waiting) :
    Inv ({ state with mx := none }.moved worker .asleep) := by
  have taken := (inv.mutex worker).mpr waits
  constructor
  · exact inv.fifo
  · exact inv.flag
  · intro other
    rw [State.moved_pool]
    split
    next => exact iff_of_false (Option.some_ne_none other).symm (Worker.ne_waiting rfl)
    next different =>
      refine iff_of_false (Option.some_ne_none other).symm ?_
      intro otherWaits
      have both := taken.symm.trans ((inv.mutex other).mpr otherWaits)
      exact different (Option.some.inj both).symm
  · intro none
    cases none
  · intro queued
    exact absurd (inv.empty (by rw [taken]; rfl)) queued
  · intro other
    rw [State.moved_pool]
    split
    next =>
      intro finished
      cases finished
    next => exact inv.late other
  · intro ended
    have place := inv.noSleep ended worker
    rw [waits] at place
    rcases place with awake | finished
    · cases awake
    · cases finished
  · intro ended
    have finished := inv.joined ended worker
    rw [waits] at finished
    cases finished

/-- A job is queued while the mutex is free and some worker is awake. -/
theorem Inv.push (inv : Inv state) (free : state.mx = none)
    (awake : ∃ worker, (state.pool worker).isAwake) (job : Job Label) :
    Inv { state with queue := state.queue ++ [job], enqueued := state.enqueued ++ [job] } := by
  constructor
  · rw [inv.fifo, List.append_assoc]
  · exact inv.flag
  · exact inv.mutex
  · intro taken
    rw [free] at taken
    cases taken
  · intro _
    exact awake
  · exact inv.late
  · exact inv.noSleep
  · exact inv.joined

/-- What `enqueue` does: it wakes a worker that sleeps, and no worker sleeps if it wakes
none. -/
theorem enqueue_cases {job : Job Label} {chosen : Option (Fin n)}
    (stepped : enqueue state job chosen = some next) :
    state.mx = none ∧ ∃ woken : State n Label,
      next = { woken with queue := state.queue ++ [job], enqueued := state.enqueued ++ [job] } ∧
      ((∃ worker, (state.pool worker).isAsleep ∧ woken = state.moved worker .woken) ∨
        (∀ worker, (state.pool worker).isAsleep = false) ∧ woken = state) := by
  unfold enqueue at stepped
  split at stepped
  · cases stepped
  next free =>
    refine ⟨Option.not_isSome_iff_eq_none.mp free, ?_⟩
    cases chosen with
    | none =>
        simp only [notify_one] at stepped
        split at stepped
        next quiet =>
          cases stepped
          exact ⟨state, rfl, .inr ⟨quiet, rfl⟩⟩
        next => cases stepped
    | some worker =>
        simp only [notify_one] at stepped
        split at stepped
        next asleep =>
          cases stepped
          exact ⟨state.moved worker .woken, rfl, .inl ⟨worker, asleep, rfl⟩⟩
        next => cases stepped

theorem Worker.isAwake_iff (place : Worker Label) :
    place.isAwake = true ↔
      place.isAsleep = false ∧ place ≠ .waiting ∧ place.isFinished = false := by
  cases place <;> simp [Worker.isAwake, Worker.isAsleep, Worker.isFinished]

theorem Worker.not_asleep (known : place.isAwake = true ∨ place.isFinished = true) :
    place.isAsleep = false := by
  cases place <;> simp [Worker.isAwake, Worker.isAsleep, Worker.isFinished] at known ⊢

theorem Worker.not_waiting (known : place.isAwake = true ∨ place.isFinished = true) :
    place ≠ .waiting := by
  rintro rfl
  rcases known with awake | finished
  · cases awake
  · cases finished

/-- Enqueuing keeps the invariant while a worker is left that has not ended; a worker that
is awake goes on from where it is. -/
theorem Inv.enqueue (inv : Inv state) {job : Job Label} {chosen : Option (Fin n)}
    (left : ∃ worker, (state.pool worker).isFinished = false)
    (stepped : ThreadPool.enqueue state job chosen = some next) :
    Inv next ∧ ∀ worker, (state.pool worker).isAwake → next.pool worker = state.pool worker := by
  obtain ⟨free, woken, rfl, wakes⟩ := enqueue_cases stepped
  rcases wakes with ⟨worker, asleep, rfl⟩ | ⟨quiet, rfl⟩
  · have other : (state.pool worker).isFinished = false ∧ state.pool worker ≠ .waiting := by
      cases place : state.pool worker <;> rw [place] at asleep <;> cases asleep
      exact ⟨rfl, Worker.ne_waiting rfl⟩
    have moved : Inv (state.moved worker .woken) := inv.moved other.1 other.2 rfl
    refine ⟨moved.push free ⟨worker, ?_⟩ job, ?_⟩
    · rw [State.moved_pool, if_pos rfl]
      rfl
    · intro awakeWorker awake
      dsimp only
      rw [State.moved_pool, if_neg]
      rintro rfl
      rw [Worker.isAwake_iff, asleep] at awake
      cases awake.1
  · refine ⟨inv.push free ?_ job, fun _ _ => rfl⟩
    obtain ⟨worker, unfinished⟩ := left
    refine ⟨worker, (Worker.isAwake_iff _).mpr ⟨quiet worker, ?_, unfinished⟩⟩
    intro waits
    rw [(inv.mutex worker).mpr waits] at free
    cases free

theorem Inv.dequeue (inv : Inv state) (awake : (state.pool worker).isAwake = true)
    (stepped : ThreadPool.dequeue state worker = some next) : Inv next := by
  obtain ⟨_, free, unfinished⟩ := (Worker.isAwake_iff _).mp awake
  unfold ThreadPool.dequeue at stepped
  split at stepped
  · cases stepped
  next unlocked =>
    split at stepped
    next wakes =>
      split at stepped
      next empty =>
        cases stepped
        rw [empty] at wakes
        apply inv.finish free _ empty
        simpa using wakes
      next job queue first =>
        cases stepped
        exact (inv.take first).moved unfinished free rfl
    next sleeps =>
      cases stepped
      have both : state.shutdown = false ∧ state.queue = [] := by simpa using sleeps
      exact inv.wait (Option.not_isSome_iff_eq_none.mp unlocked) both.1 both.2

theorem Inv.worker_thread (inv : Inv state) {chosen : Option (Fin n)}
    (stepped : ThreadPool.worker_thread state worker chosen = some next) : Inv next := by
  unfold ThreadPool.worker_thread at stepped
  cases place : state.pool worker with
  | entering =>
      rw [place] at stepped
      exact inv.dequeue (by rw [place]; rfl) stepped
  | waiting =>
      rw [place] at stepped
      cases stepped
      exact inv.sleep place
  | asleep =>
      rw [place] at stepped
      cases stepped
  | woken =>
      rw [place] at stepped
      exact inv.dequeue (by rw [place]; rfl) stepped
  | running enqueues =>
      have awake : (state.pool worker).isAwake = true := by rw [place]; rfl
      obtain ⟨_, free, unfinished⟩ := (Worker.isAwake_iff _).mp awake
      rw [place] at stepped
      cases enqueues with
      | nil =>
          cases stepped
          exact inv.moved unfinished free rfl
      | cons job enqueues =>
          obtain ⟨queued, pushed, rfl⟩ := Option.map_eq_some_iff.mp stepped
          obtain ⟨kept, same⟩ := inv.enqueue ⟨worker, unfinished⟩ pushed
          apply kept.moved
          · rw [same worker awake]
            exact unfinished
          · rw [same worker awake]
            exact free
          · rfl
  | finished =>
      rw [place] at stepped
      cases stepped

theorem notify_all_pool (state : State n Label) (worker : Fin n) :
    ((notify_all state).pool worker = .waiting ↔ state.pool worker = .waiting) ∧
      ((state.pool worker).isAwake = true → ((notify_all state).pool worker).isAwake = true) ∧
      ((notify_all state).pool worker).isAsleep = false := by
  cases place : state.pool worker <;>
    simp [notify_all, place, Worker.isAsleep, Worker.isAwake]

theorem Inv.destroy (inv : Inv state) (stepped : ThreadPool.destroy state = some next) :
    Inv next := by
  unfold ThreadPool.destroy at stepped
  cases place : state.destructor with
  | notCalled =>
      simp only [place, Option.some.injEq] at stepped
      subst next
      refine ⟨inv.fifo, ?_, inv.mutex, inv.empty, inv.awake, fun _ _ => rfl, ?_, ?_⟩
      · simp
      · intro ended
        rcases ended with ended | ended <;> cases ended
      · intro ended
        cases ended
  | shutdownSet =>
      simp only [place] at stepped
      split at stepped
      · cases stepped
      next unlocked =>
        cases stepped
        have free := Option.not_isSome_iff_eq_none.mp unlocked
        have flag : state.shutdown = true := inv.flag.mpr (by rw [place]; decide)
        refine ⟨inv.fifo, ?_, ?_, inv.empty, ?_, fun _ _ => flag, ?_, ?_⟩
        · exact iff_of_true flag Destructor.noConfusion
        · exact fun worker => (inv.mutex worker).trans (notify_all_pool state worker).1.symm
        · intro queued
          obtain ⟨worker, awake⟩ := inv.awake queued
          exact ⟨worker, (notify_all_pool state worker).2.1 awake⟩
        · intro _ worker
          obtain ⟨waits, _, quiet⟩ := notify_all_pool state worker
          by_cases finished : ((notify_all state).pool worker).isFinished = true
          · exact .inr finished
          · refine .inl ((Worker.isAwake_iff _).mpr
              ⟨quiet, ?_, Bool.eq_false_of_not_eq_true finished⟩)
            intro still
            rw [(inv.mutex worker).mpr (waits.mp still)] at free
            cases free
        · intro ended
          cases ended
  | notified =>
      simp only [place] at stepped
      split at stepped
      next ended =>
        cases stepped
        refine ⟨inv.fifo, ?_, inv.mutex, inv.empty, inv.awake, inv.late, ?_, fun _ => ended⟩
        · exact inv.flag.trans (iff_of_true (by rw [place]; decide) Destructor.noConfusion)
        · exact fun _ => inv.noSleep (.inl place)
      next => cases stepped
  | joined =>
      simp only [place] at stepped
      cases stepped

/-- Every step keeps the invariant. -/
theorem step_inv (positive : 0 < n) {action : Action n Label} (inv : Inv state)
    (alive : Alive state action) (stepped : step state action = some next) : Inv next := by
  cases action with
  | work worker chosen => exact inv.worker_thread stepped
  | wakeUp worker =>
      simp only [step] at stepped
      split at stepped
      next asleep =>
        cases stepped
        cases place : state.pool worker <;> rw [place] at asleep <;> cases asleep
        apply inv.moved
        · rw [place]
          rfl
        · rw [place]
          exact Worker.ne_waiting rfl
        · rfl
      next => cases stepped
  | enqueue job chosen =>
      refine (inv.enqueue ⟨⟨0, positive⟩, ?_⟩ stepped).1
      apply Bool.eq_false_of_not_eq_true
      intro finished
      exact inv.flag.mp (inv.late _ finished) alive
  | destroy => exact inv.destroy stepped

/-! ## No worker waits in vain -/

theorem exists_enqueue (free : state.mx = none) (job : Job Label) :
    ∃ chosen, (enqueue state job chosen).isSome := by
  by_cases quiet : ∀ worker, (state.pool worker).isAsleep = false
  · refine ⟨none, ?_⟩
    simp [enqueue, notify_one, free, quiet]
  · simp only [not_forall, Bool.not_eq_false] at quiet
    obtain ⟨worker, asleep⟩ := quiet
    refine ⟨some worker, ?_⟩
    simp [enqueue, notify_one, free, asleep]

theorem dequeue_isSome (free : state.mx = none) (worker : Fin n) :
    (dequeue state worker).isSome := by
  unfold dequeue
  rw [free, Option.isSome_none, if_neg Bool.false_ne_true]
  split
  · split <;> rfl
  · rfl

/-- A worker that is awake can go on while the mutex is free. -/
theorem awake_enabled (free : state.mx = none) (awake : (state.pool worker).isAwake = true) :
    ∃ chosen, (step state (.work worker chosen)).isSome := by
  simp only [step, worker_thread]
  cases place : state.pool worker with
  | entering => exact ⟨none, dequeue_isSome free worker⟩
  | woken => exact ⟨none, dequeue_isSome free worker⟩
  | running enqueues =>
      cases enqueues with
      | nil => exact ⟨none, rfl⟩
      | cons job enqueues =>
          obtain ⟨chosen, enabled⟩ := exists_enqueue free job
          exact ⟨chosen, by rw [Option.isSome_map]; exact enabled⟩
  | _ =>
      rw [place] at awake
      cases awake

/-! ## The destructor returns -/

mutual

/-- The steps that a job and the jobs it enqueues will take. -/
def Job.work : Job Label → Nat
  | .mk _ enqueues => 1 + workOfAll enqueues

/-- The steps of a worker that has these jobs to enqueue. -/
def workOfAll : List (Job Label) → Nat
  | [] => 1
  | job :: enqueues => 1 + job.work + workOfAll enqueues

end

/-- The steps that a worker has left, but for those of the jobs in the queue. -/
def Worker.work : Worker Label → Nat
  | .entering => 1
  | .waiting => 1
  | .asleep => 1
  | .woken => 1
  | .running enqueues => 1 + workOfAll enqueues
  | .finished => 0

def State.work (state : State n Label) : Nat :=
  (state.queue.map Job.work).sum + ∑ worker, (state.pool worker).work

theorem State.work_moved (state : State n Label) (worker : Fin n) (place : Worker Label) :
    (state.moved worker place).work + (state.pool worker).work = state.work + place.work := by
  have others : ∀ other ∈ Finset.univ.erase worker,
      ((state.moved worker place).pool other).work = (state.pool other).work := by
    intro other member
    rw [State.moved_pool, if_neg (Finset.ne_of_mem_erase member)]
  have before := Finset.add_sum_erase Finset.univ
    (fun worker => (state.pool worker).work) (Finset.mem_univ worker)
  have after := Finset.add_sum_erase Finset.univ
    (fun other => ((state.moved worker place).pool other).work) (Finset.mem_univ worker)
  rw [Finset.sum_congr rfl others, State.moved_pool, if_pos rfl] at after
  have queue : (state.moved worker place).queue = state.queue := rfl
  simp only [State.work, queue]
  omega

theorem Job.work_eq (job : Job Label) : job.work = 1 + workOfAll job.enqueues := by
  cases job
  rw [Job.work, Job.enqueues]

theorem work_lt_dequeue (flag : state.shutdown = true) (here : (state.pool worker).work = 1)
    (stepped : dequeue state worker = some next) :
    next.destructor = state.destructor ∧ next.work < state.work := by
  have wakes : (state.shutdown || !state.queue.isEmpty) = true := by
    rw [flag, Bool.true_or]
  unfold dequeue at stepped
  split at stepped
  · cases stepped
  split at stepped
  next empty =>
    cases stepped
    have moved := state.work_moved worker .finished
    rw [here, Worker.work] at moved
    exact ⟨rfl, by omega⟩
  next job queue first =>
    cases stepped
    have moved : _ + (state.pool worker).work = _ := State.work_moved
      { state with queue := queue, executed := state.executed ++ [job] } worker
      (.running job.enqueues)
    have taken : state.work = job.work +
        State.work { state with queue := queue, executed := state.executed ++ [job] } := by
      simp only [State.work, first, List.map_cons, List.sum_cons]
      omega
    rw [Job.work_eq] at taken
    rw [here, Worker.work] at moved
    exact ⟨rfl, by omega⟩

/-- Once the workers are notified, each of their steps leaves less to do. -/
theorem Inv.work_lt (inv : Inv state) (ended : state.destructor = .notified)
    {chosen : Option (Fin n)} (stepped : step state (.work worker chosen) = some next) :
    next.destructor = .notified ∧ next.work < state.work := by
  have flag : state.shutdown = true := inv.flag.mpr (by rw [ended]; exact Destructor.noConfusion)
  have quiet := inv.noSleep (.inl ended)
  rw [← ended]
  simp only [step, ThreadPool.worker_thread] at stepped
  cases place : state.pool worker with
  | entering =>
      rw [place] at stepped
      exact work_lt_dequeue flag (by rw [place]; rfl) stepped
  | woken =>
      rw [place] at stepped
      exact work_lt_dequeue flag (by rw [place]; rfl) stepped
  | running enqueues =>
      rw [place] at stepped
      cases enqueues with
      | nil =>
          cases stepped
          have moved := state.work_moved worker .entering
          rw [place, Worker.work, Worker.work, workOfAll] at moved
          exact ⟨rfl, by omega⟩
      | cons job enqueues =>
          obtain ⟨queued, pushed, rfl⟩ := Option.map_eq_some_iff.mp stepped
          obtain ⟨_, woken, rfl, wakes⟩ := enqueue_cases pushed
          rcases wakes with ⟨other, asleep, _⟩ | ⟨_, rfl⟩
          · rw [Worker.not_asleep (quiet other)] at asleep
            cases asleep
          · have moved := State.work_moved
              { woken with
                queue := woken.queue ++ [job], enqueued := woken.enqueued ++ [job] }
              worker (.running enqueues)
            have queued : State.work
                { woken with
                  queue := woken.queue ++ [job], enqueued := woken.enqueued ++ [job] } =
                woken.work + job.work := by
              simp only [State.work, List.map_append, List.map_cons, List.map_nil,
                List.sum_append, List.sum_cons, List.sum_nil]
              omega
            simp only [place, Worker.work, workOfAll] at moved
            exact ⟨rfl, by omega⟩
  | waiting => exact absurd place (Worker.not_waiting (quiet worker))
  | asleep =>
      rw [place] at stepped
      cases stepped
  | finished =>
      rw [place] at stepped
      cases stepped

/-- Behind `notify_all` only the workers go on until the destructor has joined them. -/
theorem Inv.step_cases {action : Action n Label} (inv : Inv state)
    (ended : state.destructor = .notified ∨ state.destructor = .joined)
    (alive : Alive state action) (stepped : step state action = some next) :
    state.destructor = .notified ∧ (next.destructor = .notified ∧ next.work < state.work ∨
      next.destructor = .joined ∧ next.work = state.work) := by
  have quiet := inv.noSleep ended
  cases action with
  | work worker chosen =>
      rcases ended with notified | joined
      · exact ⟨notified, .inl (inv.work_lt notified stepped)⟩
      · have finished := inv.joined joined worker
        simp only [step, ThreadPool.worker_thread] at stepped
        cases place : state.pool worker <;> rw [place] at stepped finished <;>
          cases finished
        cases stepped
  | wakeUp worker =>
      simp only [step] at stepped
      rw [Worker.not_asleep (quiet worker)] at stepped
      cases stepped
  | enqueue job chosen =>
      rw [Alive] at alive
      rw [alive] at ended
      rcases ended with ended | ended <;> cases ended
  | destroy =>
      simp only [step, ThreadPool.destroy] at stepped
      rcases ended with notified | joined
      · rw [notified] at stepped
        dsimp only at stepped
        split at stepped <;> cases stepped
        exact ⟨notified, .inr ⟨rfl, rfl⟩⟩
      · rw [joined] at stepped
        cases stepped

/-- A run behind `notify_all` has no more steps than there are left and the last one of the
destructor. -/
theorem length_of_run (positive : 0 < n) {actions : List (Action n Label)} :
    ∀ {state final : State n Label}, Inv state →
      state.destructor = .notified ∨ state.destructor = .joined →
      run (guarded step Alive) state actions = some final →
      actions.length ≤ state.work + if state.destructor = .notified then 1 else 0 := by
  induction actions with
  | nil =>
      intro state final inv ended ran
      exact Nat.zero_le _
  | cons action actions induction =>
      intro state final inv ended ran
      obtain ⟨next, stepped, rest⟩ := Option.bind_eq_some_iff.mp ran
      unfold guarded at stepped
      split at stepped
      next alive =>
        obtain ⟨notified, after⟩ := inv.step_cases ended alive stepped
        have kept := step_inv positive inv alive stepped
        rw [if_pos notified, List.length_cons]
        rcases after with ⟨still, less⟩ | ⟨joined, same⟩
        · have shorter := induction kept (.inl still) rest
          rw [if_pos still] at shorter
          omega
        · have shorter := induction kept (.inr joined) rest
          rw [if_neg (by rw [joined]; exact Destructor.noConfusion)] at shorter
          omega
      next => cases stepped

/-- Behind `notify_all` somebody can go on until the destructor has joined the workers. -/
theorem Inv.notStuck (inv : Inv state) (notified : state.destructor = .notified) :
    ∃ action, Alive state action ∧ (step state action).isSome := by
  have quiet := inv.noSleep (.inl notified)
  by_cases finished : ∀ worker, (state.pool worker).isFinished = true
  · refine ⟨.destroy, trivial, ?_⟩
    simp [step, ThreadPool.destroy, notified, finished]
  · obtain ⟨worker, unfinished⟩ := not_forall.mp finished
    have free : state.mx = none := by
      cases taken : state.mx with
      | none => rfl
      | some owner => exact absurd ((inv.mutex owner).mp taken) (Worker.not_waiting (quiet owner))
    obtain ⟨chosen, enabled⟩ := awake_enabled free ((quiet worker).resolve_right unfinished)
    exact ⟨.work worker chosen, trivial, enabled⟩

/-- With at least one worker and whatever the threads do: the jobs are begun in the order in
which they were enqueued, each of them once; while a job is in the queue some worker can go
on; and the destructor, once it has notified the workers, returns after a number of steps
that is bounded in advance, when all jobs have been executed. -/
theorem threadPool_executesAll (positive : 0 < n)
    (execution : Execution step Alive (ThreadPool.init n Label) state) :
    state.enqueued = state.executed ++ state.queue ∧
    (state.queue ≠ [] → ∃ worker chosen, (step state (.work worker chosen)).isSome) ∧
    (state.destructor = .notified →
      (∃ action, Alive state action ∧ (step state action).isSome) ∧
      ∀ actions final, run (guarded step Alive) state actions = some final →
        actions.length ≤ state.work + 1) ∧
    (state.destructor = .joined → state.executed = state.enqueued) := by
  have inv : Inv state := execution.invariant (.init n Label)
    fun _ _ _ inv alive stepped => step_inv positive inv alive stepped
  refine ⟨inv.fifo, ?_, ?_, ?_⟩
  · intro queued
    obtain ⟨worker, awake⟩ := inv.awake queued
    have free : state.mx = none := by
      apply Option.not_isSome_iff_eq_none.mp
      exact fun taken => queued (inv.empty taken)
    obtain ⟨chosen, enabled⟩ := awake_enabled free awake
    exact ⟨worker, chosen, enabled⟩
  · intro notified
    refine ⟨inv.notStuck notified, ?_⟩
    intro actions final ran
    have bounded := length_of_run positive inv (.inl notified) ran
    rwa [if_pos notified] at bounded
  · intro joined
    have nothing : state.queue = [] := by
      by_contra queued
      obtain ⟨worker, awake⟩ := inv.awake queued
      have finished := inv.joined joined worker
      have unfinished := ((Worker.isAwake_iff _).mp awake).2.2
      rw [finished] at unfinished
      cases unfinished
    rw [inv.fifo, nothing, List.append_nil]

/-- A worker sleeps and is woken by a job; the destructor begins while the job runs, which
enqueues a second one. -/
def oneWorker : List (Action 1 Nat) :=
  [.work 0 none, .work 0 none, .enqueue (.mk 1 [.mk 2 []]) (some 0), .work 0 none, .destroy,
    .work 0 none, .work 0 none, .work 0 none, .destroy, .work 0 none, .work 0 none, .destroy]

theorem threadPool_executesAll_oneWorker :
    ∃ state, run (guarded step Alive) (ThreadPool.init 1 Nat) oneWorker = some state ∧
      state.executed.map Job.label = [1, 2] ∧ state.executed = state.enqueued := by
  have ended : (run (guarded step Alive) (ThreadPool.init 1 Nat) oneWorker).map
      (fun state => (state.destructor, state.executed.map Job.label)) =
        some (.joined, [1, 2]) := by
    decide
  obtain ⟨state, ran, values⟩ := Option.map_eq_some_iff.mp ended
  obtain ⟨joined, labels⟩ := Prod.mk.inj values
  have all := threadPool_executesAll (by decide) (Execution.of_guarded_run ran)
  exact ⟨state, ran, labels, all.2.2.2 joined⟩

end

end PipeFabric.ThreadPool
