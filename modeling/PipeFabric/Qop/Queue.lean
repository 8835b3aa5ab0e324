import Mathlib.Data.List.TakeDrop
import PipeFabric.Core.Punctuation
import PipeFabric.Library.Transducer
import PipeFabric.Library.TransitionSystem

/-!
# The queue operator

`Queue` decouples the thread that produces a stream from the one that consumes it:
what arrives is pushed to a `ConcurrentQueue`, and the thread of a
`DequeueNotifier` takes the entries off again and publishes them.  Data elements
and punctuations cross the queue in one record type.
-/

namespace PipeFabric

/-- `ConcurrentQueue`. -/
structure ConcurrentQueue (Entry : Type) where
  queue_ : List Entry
  stopped_ : Bool

namespace ConcurrentQueue

variable {Entry : Type}

/-- The constructor. -/
def init : ConcurrentQueue Entry := ⟨[], false⟩

/-- `push`. -/
def push (queue : ConcurrentQueue Entry) (item : Entry) : ConcurrentQueue Entry :=
  { queue with queue_ := queue.queue_ ++ [item] }

/-- `stop`. -/
def stop (queue : ConcurrentQueue Entry) : ConcurrentQueue Entry :=
  { queue with stopped_ := true }

/-- `pop`, as it returns under the mutex: it waits while the queue is empty and not
stopped, and gives no item once it is stopped. -/
def pop (queue : ConcurrentQueue Entry) : Option (Option Entry × ConcurrentQueue Entry) :=
  if queue.stopped_ then some (none, queue)
  else
    match queue.queue_ with
    | [] => none
    | item :: rest => some (some item, { queue with queue_ := rest })

end ConcurrentQueue

namespace Queue

variable {Element Payload : Type}

/-- The record that crosses the queue: a punctuation type, a stream element and an
outdated flag. -/
abbrev Entry (Element : Type) := PType × Element × Bool

/-- What `processDataElement` and `processPunctuation` push; `null` is the stream
element made from `nullptr`. -/
def entry (null : Element) : StreamItem Element Payload → Entry Element
  | .element data outdated => (.None, data, outdated)
  | .punctuation punctuation => (punctuation.mPtype, null, false)

/-- What `dequeueTuple` publishes for an entry at the time `now`. -/
def dequeued (tp : Entry Element) (now : Timestamp) : StreamItem Element Payload :=
  if tp.1 = .None then .element tp.2.1 tp.2.2
  else .punctuation ⟨tp.1, none, now⟩

/-- The operator: its queue, the flag that ends the consumer thread, the record
the consumer has popped and not yet published, and what has arrived and been
published. -/
structure State (Element Payload : Type) where
  mQueue : ConcurrentQueue (Entry Element)
  mInterrupted : Bool
  tp : Option (Entry Element)
  received : List (StreamItem Element Payload)
  published : List (StreamItem Element Payload)

/-- A new operator. -/
def init : State Element Payload := ⟨.init, false, none, [], []⟩

/-- The steps of the producers, of the consumer thread and of the destructor. -/
inductive Action (Element Payload : Type) where
  | push (item : StreamItem Element Payload)
  | pop
  | publish (now : Timestamp)
  | interrupt
  | stop

/-- One step; `none` where it cannot be taken. -/
def step (null : Element) (state : State Element Payload) :
    Action Element Payload → Option (State Element Payload)
  | .push item =>
      some { state with
        mQueue := state.mQueue.push (entry null item)
        received := state.received ++ [item] }
  | .pop =>
      if state.tp.isSome || state.mInterrupted then none
      else (state.mQueue.pop).map fun popped =>
        { state with mQueue := popped.2, tp := popped.1 }
  | .publish now =>
      state.tp.map fun tp =>
        { state with
          tp := none
          published := state.published ++ [dequeued tp now] }
  | .interrupt => some { state with mInterrupted := true }
  | .stop => some { state with mQueue := state.mQueue.stop }

/-- The entries that have not been published are those of what has arrived since,
in the order of arrival. -/
structure Pending (null : Element) (state : State Element Payload) : Prop where
  bounded : state.published.length ≤ state.received.length
  entries : (state.received.drop state.published.length).map (entry null) =
    state.tp.toList ++ state.mQueue.queue_

theorem pending_init (null : Element) : Pending null (init : State Element Payload) :=
  ⟨Nat.le_refl 0, rfl⟩

/-- What is in the consumer's hand is the first of what was not published. -/
theorem Pending.next {null : Element} {state : State Element Payload}
    (pending : Pending null state) {tp : Entry Element} (held : state.tp = some tp) :
    ∃ item, state.received[state.published.length]? = some item ∧ entry null item = tp ∧
      state.published.length < state.received.length ∧
      (state.received.drop (state.published.length + 1)).map (entry null) =
        state.mQueue.queue_ := by
  have entries := pending.entries
  rw [held] at entries
  cases left : state.received.drop state.published.length with
  | nil =>
      rw [left] at entries
      cases entries
  | cons item rest =>
      rw [left] at entries
      obtain ⟨first, others⟩ := List.cons.inj entries
      have inside : state.published.length < state.received.length := by
        have length := congrArg List.length left
        simp only [List.length_drop, List.length_cons] at length
        omega
      have position : state.received[state.published.length]? = some item := by
        rw [← List.head?_drop, left, List.head?_cons]
      have later : state.received.drop (state.published.length + 1) = rest := by
        rw [← List.tail_drop, left, List.tail_cons]
      exact ⟨item, position, first, inside, by rw [later]; exact others⟩

theorem pending_step {null : Element} {state next : State Element Payload}
    {action : Action Element Payload} (pending : Pending null state)
    (stepped : step null state action = some next) : Pending null next := by
  have bounded := pending.bounded
  have entries := pending.entries
  cases action with
  | push item =>
      cases stepped
      refine ⟨?_, ?_⟩
      · simp only [List.length_append, List.length_singleton]
        omega
      · simp only [ConcurrentQueue.push]
        rw [List.drop_append_of_le_length bounded, List.map_append, entries,
          List.map_singleton, List.append_assoc]
  | pop =>
      simp only [step] at stepped
      by_cases busy : (state.tp.isSome || state.mInterrupted) = true
      · rw [if_pos busy] at stepped
        cases stepped
      · rw [if_neg busy, Option.map_eq_some_iff] at stepped
        obtain ⟨popped, taken, rfl⟩ := stepped
        have empty : state.tp = none := by
          simp only [Bool.or_eq_true, not_or, Bool.not_eq_true,
            Option.isSome_eq_false_iff, Option.isNone_iff_eq_none] at busy
          exact busy.1
        rw [empty] at entries
        refine ⟨bounded, entries.trans ?_⟩
        simp only [ConcurrentQueue.pop] at taken
        by_cases stopped : state.mQueue.stopped_ = true
        · rw [if_pos stopped] at taken
          cases taken
          rfl
        · rw [if_neg stopped] at taken
          cases queued : state.mQueue.queue_ with
          | nil =>
              rw [queued] at taken
              cases taken
          | cons item rest =>
              rw [queued] at taken
              cases taken
              rfl
  | publish now =>
      simp only [step, Option.map_eq_some_iff] at stepped
      obtain ⟨tp, held, rfl⟩ := stepped
      obtain ⟨item, _, _, inside, rest⟩ := pending.next held
      refine ⟨?_, ?_⟩
      · simp only [List.length_append, List.length_singleton]
        omega
      · simpa using rest
  | interrupt =>
      cases stepped
      exact ⟨bounded, entries⟩
  | stop =>
      cases stepped
      exact ⟨bounded, entries⟩

theorem pending_run {null : Element} {actions : List (Action Element Payload)}
    {state : State Element Payload}
    (ran : TransitionSystem.run (step null) init actions = some state) :
    Pending null state :=
  (TransitionSystem.Execution.of_run ran).invariant (pending_init null)
    fun _ _ _ pending _ stepped => pending_step pending stepped

/-! ## What is published -/

/-- In every state reached by a part of the schedule, what was published is the
beginning of what has arrived. -/
def ForwardsFaithfully (null : Element) (actions : List (Action Element Payload)) : Prop :=
  ∀ seen, seen <+: actions → ∀ state,
    TransitionSystem.run (step null) init seen = some state →
    state.published <+: state.received

/-- The element whose turn it is, if it is a punctuation, carries no user data and
has the timestamp at which it is taken from the queue. -/
def Reproducible (state : State Element Payload) (now : Timestamp) : Prop :=
  ∀ punctuation,
    state.received[state.published.length]? = some (.punctuation punctuation) →
    punctuation.mData = none ∧ punctuation.mTstamp = now

/-- A punctuation of type `None` may not be sent. -/
def Proper (actions : List (Action Element Payload)) : Prop :=
  ∀ punctuation, .push (.punctuation punctuation) ∈ actions →
    punctuation.mPtype ≠ .None

theorem received_pushed {null : Element} {actions : List (Action Element Payload)}
    {state : State Element Payload}
    (ran : TransitionSystem.run (step null) init actions = some state)
    {item : StreamItem Element Payload} (arrived : item ∈ state.received) :
    .push item ∈ actions := by
  induction actions using List.reverseRecOn generalizing state with
  | nil =>
      cases ran
      cases arrived
  | append_singleton actions action induction =>
      rw [TransitionSystem.run_append, Option.bind_eq_some_iff] at ran
      obtain ⟨before, reached, stepped⟩ := ran
      simp only [TransitionSystem.run, Option.bind_eq_some_iff, Option.some.injEq] at stepped
      obtain ⟨next, stepped, rfl⟩ := stepped
      have earlier (kept : next.received = before.received) :
          .push item ∈ actions ++ [action] :=
        List.mem_append_left _ (induction reached (by rw [← kept]; exact arrived))
      cases action with
      | push pushed =>
          cases stepped
          rcases List.mem_append.mp arrived with before | new
          · exact List.mem_append_left _ (induction reached before)
          · rw [List.mem_singleton] at new
            subst new
            simp
      | pop =>
          simp only [step] at stepped
          split at stepped
          · cases stepped
          · obtain ⟨popped, _, rfl⟩ := Option.map_eq_some_iff.mp stepped
            exact earlier rfl
      | publish now =>
          obtain ⟨tp, _, rfl⟩ := Option.map_eq_some_iff.mp stepped
          exact earlier rfl
      | interrupt =>
          cases stepped
          exact earlier rfl
      | stop =>
          cases stepped
          exact earlier rfl

/-- An element survives the queue; a punctuation does where it is reproduced. -/
theorem dequeued_entry_eq_iff (null : Element) (item : StreamItem Element Payload)
    (now : Timestamp)
    (proper : ∀ punctuation, item = .punctuation punctuation →
      punctuation.mPtype ≠ .None) :
    dequeued (entry null item) now = item ↔
      ∀ punctuation, item = .punctuation punctuation →
        punctuation.mData = none ∧ punctuation.mTstamp = now := by
  cases item with
  | element data outdated => simp [dequeued, entry]
  | punctuation punctuation =>
      obtain ⟨ptype, data, tstamp⟩ := punctuation
      have made : dequeued (entry null (.punctuation ⟨ptype, data, tstamp⟩)) now =
          (.punctuation ⟨ptype, none, now⟩ : StreamItem Element Payload) :=
        if_neg (proper _ rfl)
      rw [made]
      simp only [StreamItem.punctuation.injEq, Punctuation.mk.injEq, true_and,
        forall_eq']
      constructor
      · intro same
        exact ⟨same.1.symm, same.2.symm⟩
      · intro same
        exact ⟨same.1.symm, same.2.symm⟩

/-- Publishing one more element keeps what is published a beginning of what has
arrived if and only if it is the element whose turn it is. -/
theorem prefix_publish_iff {null : Element} {state : State Element Payload}
    {tp : Entry Element} {now : Timestamp} (pending : Pending null state)
    (held : state.tp = some tp) (faithful : state.published <+: state.received)
    (proper : ∀ punctuation, .punctuation punctuation ∈ state.received →
      punctuation.mPtype ≠ .None) :
    state.published ++ [dequeued tp now] <+: state.received ↔ Reproducible state now := by
  obtain ⟨item, position, rfl, inside, _⟩ := pending.next held
  have member : item ∈ state.received := List.mem_of_getElem? position
  have survives := dequeued_entry_eq_iff null item now fun punctuation same =>
    proper punctuation (same ▸ member)
  have split : state.received =
      state.published ++ item :: state.received.drop (state.published.length + 1) := by
    obtain ⟨rest, whole⟩ := faithful
    rw [← whole, List.getElem?_append_right (Nat.le_refl _), Nat.sub_self] at position
    cases rest with
    | nil => cases position
    | cons first rest =>
        cases position
        rw [← whole]
        simp
  have turn : Reproducible state now ↔
      ∀ punctuation, item = .punctuation punctuation →
        punctuation.mData = none ∧ punctuation.mTstamp = now := by
    simp only [Reproducible, position, Option.some.injEq]
  rw [turn, ← survives]
  constructor
  · intro longer
    rw [split] at longer
    obtain ⟨rest, whole⟩ := longer
    rw [List.append_assoc] at whole
    exact (List.cons.inj (List.append_cancel_left whole)).1
  · intro same
    refine ⟨state.received.drop (state.published.length + 1), ?_⟩
    rw [same, List.append_assoc]
    exact split.symm

/-- What a step of the schedule has to satisfy. -/
theorem publishedPrefix_concat_iff (null : Element)
    (seen : List (Action Element Payload)) (action : Action Element Payload)
    (proper : Proper (seen ++ [action]))
    (faithful : ∀ state, TransitionSystem.run (step null) init seen = some state →
      state.published <+: state.received) :
    (∀ state, TransitionSystem.run (step null) init (seen ++ [action]) = some state →
        state.published <+: state.received) ↔
      ∀ now, action = .publish now → ∀ state,
        TransitionSystem.run (step null) init seen = some state →
        state.tp.isSome → Reproducible state now := by
  constructor
  · intro longer now published state reached held
    subst published
    obtain ⟨tp, holds⟩ := Option.isSome_iff_exists.mp held
    have next : TransitionSystem.run (step null) init (seen ++ [.publish now]) =
        some { state with
          tp := none
          published := state.published ++ [dequeued tp now] } := by
      rw [TransitionSystem.run_append, reached, Option.bind_some]
      simp only [TransitionSystem.run, step, holds, Option.map_some, Option.bind_some]
    refine (prefix_publish_iff (pending_run reached) holds
      (faithful state reached) ?_).mp (longer _ next)
    exact fun punctuation arrived =>
      proper punctuation (List.mem_append_left _ (received_pushed reached arrived))
  · intro reproducible state ran
    rw [TransitionSystem.run_append, Option.bind_eq_some_iff] at ran
    obtain ⟨before, reached, stepped⟩ := ran
    simp only [TransitionSystem.run, Option.bind_eq_some_iff, Option.some.injEq] at stepped
    obtain ⟨next, stepped, rfl⟩ := stepped
    have earlier := faithful before reached
    cases action with
    | push item =>
        cases stepped
        exact earlier.trans (List.prefix_append _ _)
    | pop =>
        simp only [step] at stepped
        split at stepped
        · cases stepped
        · obtain ⟨popped, _, rfl⟩ := Option.map_eq_some_iff.mp stepped
          exact earlier
    | publish now =>
        obtain ⟨tp, held, rfl⟩ := Option.map_eq_some_iff.mp stepped
        refine (prefix_publish_iff (pending_run reached) held earlier ?_).mpr
          (reproducible now rfl before reached (by rw [held]; rfl))
        exact fun punctuation arrived =>
          proper punctuation (List.mem_append_left _ (received_pushed reached arrived))
    | interrupt =>
        cases stepped
        exact earlier
    | stop =>
        cases stepped
        exact earlier

/-- For every schedule of the producers, the consumer thread and the destructor,
the operator publishes a beginning of what it received, in every state it goes
through, if and only if every punctuation it publishes carries no user data and
happens to have the time of its dequeuing as its timestamp. -/
theorem queue_forwardsFaithfully (null : Element) (actions : List (Action Element Payload))
    (proper : Proper actions) :
    ForwardsFaithfully null actions ↔
      ∀ seen now, seen ++ [.publish now] <+: actions → ∀ state,
        TransitionSystem.run (step null) init seen = some state →
        state.tp.isSome → Reproducible state now := by
  have every : ForwardsFaithfully null actions ↔ ∀ seen action,
      seen ++ [action] <+: actions → ∀ now, action = .publish now → ∀ state,
        TransitionSystem.run (step null) init seen = some state →
        state.tp.isSome → Reproducible state now := by
    apply Transducer.forall_seen_iff
    · intro state reached
      cases reached
      exact List.prefix_rfl
    · intro seen action start faithful
      exact publishedPrefix_concat_iff null seen action
        (fun punctuation pushed => proper punctuation (start.subset pushed)) faithful
  rw [every]
  constructor
  · intro reproducible seen now start
    exact reproducible seen _ start now rfl
  · intro reproducible seen action start now published
    subst published
    exact reproducible seen now start

/-- Transaction 7 begins at time 5 and the begin is taken from the queue at time 9. -/
theorem queue_not_forwardsFaithfully :
    ¬ ForwardsFaithfully (0 : Nat)
      [.push (.punctuation ⟨.TxBegin, some 7, 5⟩), .pop, .publish 9] := by
  intro faithful
  have published := faithful _ List.prefix_rfl _ rfl
  revert published
  decide

/-- An outdated data element takes the same way. -/
def pushedElement : List (Action Nat Nat) := [.push (.element 4 true), .pop, .publish 9]

theorem queue_forwardsFaithfully_element :
    ForwardsFaithfully 0 pushedElement ↔
      ∀ seen now, seen ++ [.publish now] <+: pushedElement → ∀ state,
        TransitionSystem.run (step 0) init seen = some state →
        state.tp.isSome → Reproducible state now := by
  apply queue_forwardsFaithfully 0 pushedElement
  intro punctuation pushed
  simp [pushedElement] at pushed

end Queue

end PipeFabric
