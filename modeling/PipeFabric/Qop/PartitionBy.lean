import PipeFabric.Library.FiniteMap
import PipeFabric.Qop.Queue

/-!
# Partitioning a stream

`PartitionBy` keeps a queue for every partition id in a hash table.  Inserting there does
nothing for an id that is present, so that the queue of a repeated registration is lost, and
with it what the channels registered should get.
-/

namespace PipeFabric

namespace Queue

variable {Element Payload : Type}

/-- The queue with one more entry. -/
def pushed (null : Element) (item : StreamItem Element Payload)
    (queue : State Element Payload) : State Element Payload :=
  { queue with
    mQueue := queue.mQueue.push (entry null item)
    received := queue.received ++ [item] }

theorem step_push (null : Element) (item : StreamItem Element Payload)
    (queue : State Element Payload) :
    step null queue (.push item) = some (pushed null item queue) :=
  rfl

/-- The item comes out of the queue as it went in. -/
def Reproduced (now : Timestamp) (item : StreamItem Element Payload) : Prop :=
  ∀ punctuation, item = .punctuation punctuation →
    punctuation.mPtype ≠ .None ∧ punctuation.mData = none ∧ punctuation.mTstamp = now

theorem dequeued_entry_iff (null : Element) (item : StreamItem Element Payload)
    (now : Timestamp) : dequeued (entry null item) now = item ↔ Reproduced now item := by
  cases item with
  | element data outdated => simp [dequeued, entry, Reproduced]
  | punctuation punctuation =>
      by_cases typed : punctuation.mPtype = .None
      · have made : dequeued (entry null (.punctuation punctuation)) now =
            (.element null false : StreamItem Element Payload) := if_pos typed
        rw [made]
        refine iff_of_false ?_ ?_
        · intro same
          cases same
        · intro reproduced
          exact (reproduced punctuation rfl).1 typed
      · rw [dequeued_entry_eq_iff null (.punctuation punctuation) now]
        · constructor
          · intro same other here
            cases here
            exact ⟨typed, same punctuation rfl⟩
          · intro reproduced other here
            exact (reproduced other here).2
        · intro other here
          cases here
          exact typed

theorem step_pop {null : Element} {queue after : State Element Payload}
    (stepped : step null queue .pop = some after) :
    after.received = queue.received ∧ after.published = queue.published := by
  rw [step] at stepped
  split at stepped
  · cases stepped
  · obtain ⟨popped, _, rfl⟩ := Option.map_eq_some_iff.mp stepped
    exact ⟨rfl, rfl⟩

/-- A queue that publishes the beginning of what it received goes on so if and only if the
item whose turn it is comes out as it went in. -/
theorem step_publish_iff {null : Element} {queue after : State Element Payload}
    {now : Timestamp} (pending : Pending null queue)
    (faithful : queue.published <+: queue.received)
    (stepped : step null queue (.publish now) = some after) :
    after.received = queue.received ∧
      (after.published <+: after.received ↔
        ∀ item, queue.received[queue.published.length]? = some item → Reproduced now item) := by
  obtain ⟨tp, held, rfl⟩ := Option.map_eq_some_iff.mp stepped
  obtain ⟨item, position, rfl, _, _⟩ := pending.next held
  refine ⟨rfl, ?_⟩
  have turn : (∀ other, queue.received[queue.published.length]? = some other →
      Reproduced now other) ↔ Reproduced now item := by
    simp only [position, Option.some.injEq, forall_eq']
  rw [turn, ← dequeued_entry_iff null item now]
  change queue.published ++ [dequeued (entry null item) now] <+: queue.received ↔ _
  obtain ⟨rest, whole⟩ := faithful
  rw [← whole, List.getElem?_append_right (Nat.le_refl _), Nat.sub_self] at position
  rw [← whole, List.prefix_append_right_inj, List.singleton_prefix_iff_head?_eq_some,
    List.head?_eq_getElem?, position, Option.some.injEq]
  exact eq_comm

end Queue

namespace PartitionBy

variable {Element Payload : Type}

/-- The hash table from partition ids to queues, and the queues in the order in which they
were made.  A queue that is not in the table is gone; it stays here without a use. -/
structure State (Element Payload : Type) where
  mPartitions : FiniteMap.Entries Nat Nat
  queues : List (Queue.State Element Payload)

def init : State Element Payload := ⟨∅, []⟩

/-- The calls on the operator, and the steps of the threads of its queues. -/
inductive Action (Element Payload : Type) where
  | connectChannelsForPartition (id : Nat)
  | processDataElement (data : Element) (outdated : Bool)
  | processPunctuation (punctuation : Punctuation Payload)
  | pop (queue : Nat)
  | publish (queue : Nat) (now : Timestamp)

section

variable (mFunc : Element → Nat) (mNumPartitions : Nat) (null : Element)

/-- `connectChannelsForPartition`, whose assertion fails for an id that is too large. -/
def connectChannelsForPartition (state : State Element Payload) (id : Nat) :
    Option (State Element Payload) :=
  if id < mNumPartitions then
    some
      { mPartitions :=
          if FiniteMap.contents state.mPartitions id = none then
            state.mPartitions.insert id state.queues.length
          else state.mPartitions
        queues := state.queues ++ [Queue.init] }
  else none

/-- `processDataElement`. -/
def processDataElement (state : State Element Payload) (data : Element) (outdated : Bool) :
    State Element Payload :=
  match FiniteMap.contents state.mPartitions (mFunc data) with
  | none => state
  | some queue =>
      { state with
        queues := state.queues.modify queue (Queue.pushed null (.element data outdated)) }

/-- `processPunctuation`. -/
def processPunctuation (state : State Element Payload) (punctuation : Punctuation Payload) :
    State Element Payload :=
  { state with
    queues := (state.mPartitions.entries.map fun it => it.2).foldl
      (fun queues queue => queues.modify queue (Queue.pushed null (.punctuation punctuation)))
      state.queues }

/-- A step of the thread of a queue. -/
def consume (state : State Element Payload) (queue : Nat)
    (action : Queue.Action Element Payload) : Option (State Element Payload) :=
  (state.queues[queue]?).bind fun before =>
    (Queue.step null before action).map fun after =>
      { state with queues := state.queues.set queue after }

def step (state : State Element Payload) :
    Action Element Payload → Option (State Element Payload)
  | .connectChannelsForPartition id => connectChannelsForPartition mNumPartitions state id
  | .processDataElement data outdated => some (processDataElement mFunc null state data outdated)
  | .processPunctuation punctuation => some (processPunctuation null state punctuation)
  | .pop queue => consume null state queue .pop
  | .publish queue now => consume null state queue (.publish now)

end

/-! ### What the channels should get -/

/-- The channels of one call: the partition id, whether the id was registered before, and
what has arrived for them since. -/
structure Registration (Element Payload : Type) where
  id : Nat
  repeated : Bool
  expected : List (StreamItem Element Payload)

namespace Registration

/-- One more item for the channels. -/
def expect (item : StreamItem Element Payload) (registration : Registration Element Payload) :
    Registration Element Payload :=
  { registration with expected := registration.expected ++ [item] }

/-- An element is for the channels of its partition, and a punctuation is for all. -/
def note (mFunc : Element → Nat) (registrations : List (Registration Element Payload)) :
    Action Element Payload → List (Registration Element Payload)
  | .connectChannelsForPartition id =>
      registrations ++ [⟨id, registrations.any fun registration => registration.id = id, []⟩]
  | .processDataElement data outdated =>
      registrations.map fun registration =>
        if registration.id = mFunc data then registration.expect (.element data outdated)
        else registration
  | .processPunctuation punctuation =>
      registrations.map fun registration => registration.expect (.punctuation punctuation)
  | .pop _ => registrations
  | .publish _ _ => registrations

def all (mFunc : Element → Nat) (actions : List (Action Element Payload)) :
    List (Registration Element Payload) :=
  actions.foldl (note mFunc) []

theorem all_concat (mFunc : Element → Nat) (actions : List (Action Element Payload))
    (action : Action Element Payload) :
    all mFunc (actions ++ [action]) = note mFunc (all mFunc actions) action :=
  List.foldl_concat _ _ _ _

end Registration

/-- The channels got the beginning of what they should get, and all of it when the queue has
nothing left. -/
structure Delivered (registration : Registration Element Payload)
    (queue : Queue.State Element Payload) : Prop where
  ordered : queue.published <+: registration.expected
  complete : queue.tp = none → queue.mQueue.queue_ = [] →
    queue.published = registration.expected

/-- All channels that were registered get what they should get. -/
def Routes (registrations : List (Registration Element Payload))
    (state : State Element Payload) : Prop :=
  ∀ (number : Nat) (registration : Registration Element Payload)
    (queue : Queue.State Element Payload), registrations[number]? = some registration →
      state.queues[number]? = some queue → Delivered registration queue

/-- Nothing arrives for an id that was registered repeatedly, and a punctuation comes out of
its queue as it went in. -/
def Undisturbed (mFunc : Element → Nat) (registrations : List (Registration Element Payload))
    (state : State Element Payload) : Action Element Payload → Prop
  | .connectChannelsForPartition _ => True
  | .processDataElement data _ => ∀ registration ∈ registrations,
      registration.id = mFunc data → registration.repeated = false
  | .processPunctuation _ => ∀ registration ∈ registrations, registration.repeated = false
  | .pop _ => True
  | .publish queue now => ∀ (before : Queue.State Element Payload)
      (item : StreamItem Element Payload), state.queues[queue]? = some before →
      before.received[before.published.length]? = some item → Queue.Reproduced now item

/-! ### Invariant -/

/-- What is known of a registration and of its queue. -/
structure Linked (null : Element) (registration : Registration Element Payload)
    (queue : Queue.State Element Payload) : Prop where
  pending : Queue.Pending null queue
  lost : registration.repeated = true → queue = Queue.init
  kept : registration.repeated = false → queue.received = registration.expected

structure Invariant (null : Element) (registrations : List (Registration Element Payload))
    (state : State Element Payload) : Prop where
  length : state.queues.length = registrations.length
  table : ∀ id number, FiniteMap.contents state.mPartitions id = some number ↔
    ∃ registration, registrations[number]? = some registration ∧ registration.id = id ∧
      registration.repeated = false
  known : ∀ registration ∈ registrations,
    FiniteMap.contents state.mPartitions registration.id ≠ none
  linked : ∀ (number : Nat) (registration : Registration Element Payload)
    (queue : Queue.State Element Payload), registrations[number]? = some registration →
      state.queues[number]? = some queue → Linked null registration queue

theorem Linked.delivered_iff {null : Element} {registration : Registration Element Payload}
    {queue : Queue.State Element Payload} (linked : Linked null registration queue) :
    Delivered registration queue ↔
      if registration.repeated then registration.expected = []
      else queue.published <+: queue.received := by
  by_cases repeated : registration.repeated = true
  · obtain rfl := linked.lost repeated
    rw [if_pos repeated]
    constructor
    · intro delivered
      exact (delivered.complete rfl rfl).symm
    · intro nothing
      exact ⟨List.nil_prefix, fun _ _ => nothing.symm⟩
  · have kept := linked.kept (Bool.not_eq_true _ ▸ repeated)
    rw [if_neg repeated, kept]
    constructor
    · intro delivered
      exact delivered.ordered
    · intro ordered
      refine ⟨ordered, ?_⟩
      intro idle empty
      have left := linked.pending.entries
      rw [idle, empty, Option.toList_none, List.nil_append, List.map_eq_nil_iff,
        List.drop_eq_nil_iff, kept] at left
      exact ordered.eq_of_length_le left

section

variable {null : Element} {registrations : List (Registration Element Payload)}
  {state : State Element Payload}

/-- A registration has its queue. -/
theorem Invariant.queue (invariant : Invariant null registrations state) {number : Nat}
    {registration : Registration Element Payload}
    (here : registrations[number]? = some registration) :
    ∃ queue, state.queues[number]? = some queue := by
  have inside := (List.getElem?_eq_some_iff.mp here).1
  rw [← invariant.length] at inside
  exact ⟨_, List.getElem?_eq_getElem inside⟩

/-- Other queues, with as much to expect as they were given. -/
theorem Invariant.update (invariant : Invariant null registrations state)
    {change : Registration Element Payload → Registration Element Payload}
    (same : ∀ registration, (change registration).id = registration.id ∧
      (change registration).repeated = registration.repeated)
    {queues : List (Queue.State Element Payload)}
    (length : queues.length = state.queues.length)
    (linked : ∀ (number : Nat) (registration : Registration Element Payload)
      (queue after : Queue.State Element Payload),
      registrations[number]? = some registration → state.queues[number]? = some queue →
      queues[number]? = some after → Linked null registration queue →
      Linked null (change registration) after) :
    Invariant null (registrations.map change) { state with queues := queues } where
  length := by
    rw [List.length_map]
    exact length.trans invariant.length
  table := by
    intro id number
    rw [invariant.table id number]
    constructor
    · rintro ⟨registration, here, sameId, once⟩
      refine ⟨change registration, ?_, (same registration).1.trans sameId,
        (same registration).2.trans once⟩
      rw [List.getElem?_map, here, Option.map_some]
    · rintro ⟨changed, there, sameId, once⟩
      rw [List.getElem?_map, Option.map_eq_some_iff] at there
      obtain ⟨registration, here, rfl⟩ := there
      exact ⟨registration, here, (same registration).1.symm.trans sameId,
        (same registration).2.symm.trans once⟩
  known := by
    intro changed member
    obtain ⟨registration, before, rfl⟩ := List.mem_map.mp member
    rw [(same registration).1]
    exact invariant.known registration before
  linked := by
    intro number changed after there reached
    rw [List.getElem?_map, Option.map_eq_some_iff] at there
    obtain ⟨registration, here, rfl⟩ := there
    obtain ⟨queue, found⟩ := invariant.queue here
    exact linked number registration queue after here found reached
      (invariant.linked number registration queue here found)

/-- What arrives is expected by the registrations it is for, and pushed to those of their
queues that are in the table. -/
theorem Invariant.arrival (invariant : Invariant null registrations state)
    (addressed : Registration Element Payload → Bool) {item : StreamItem Element Payload}
    {queues : List (Queue.State Element Payload)}
    (length : queues.length = state.queues.length)
    (arrived : ∀ (number : Nat) (registration : Registration Element Payload)
      (queue : Queue.State Element Payload),
      registrations[number]? = some registration → state.queues[number]? = some queue →
      queues[number]? = some (if addressed registration = true ∧ registration.repeated = false
        then Queue.pushed null item queue else queue)) :
    Invariant null
        (registrations.map fun registration =>
          if addressed registration then registration.expect item else registration)
        { state with queues := queues } ∧
      (Routes registrations state →
        (Routes
            (registrations.map fun registration =>
              if addressed registration then registration.expect item else registration)
            { state with queues := queues } ↔
          ∀ registration ∈ registrations, addressed registration = true →
            registration.repeated = false)) := by
  have next : Invariant null
      (registrations.map fun registration =>
        if addressed registration then registration.expect item else registration)
      { state with queues := queues } := by
    apply invariant.update ?_ length
    · intro number registration queue after here found reached linked
      rw [arrived number registration queue here found] at reached
      obtain rfl := Option.some.inj reached
      by_cases meant : addressed registration = true
      · rw [if_pos meant]
        by_cases once : registration.repeated = false
        · rw [if_pos ⟨meant, once⟩]
          refine ⟨Queue.pending_step linked.pending (Queue.step_push null item queue), ?_, ?_⟩
          · intro repeated
            rw [Registration.expect, once] at repeated
            cases repeated
          · intro _
            exact congrArg (· ++ [item]) (linked.kept once)
        · rw [if_neg fun both => once both.2]
          exact ⟨linked.pending, linked.lost, fun kept => absurd kept once⟩
      · rw [if_neg meant, if_neg fun both => meant both.1]
        exact linked
    · intro registration
      split
      · exact ⟨rfl, rfl⟩
      · exact ⟨rfl, rfl⟩
  refine ⟨next, fun routes => ⟨?_, ?_⟩⟩
  · intro later registration member meant
    by_contra repeated
    obtain ⟨number, here⟩ := List.getElem?_of_mem member
    have changed : (registrations.map fun registration =>
        if addressed registration then registration.expect item else registration)[number]? =
          some (registration.expect item) := by
      rw [List.getElem?_map, here, Option.map_some, if_pos meant]
    obtain ⟨queue, found⟩ := next.queue changed
    have delivered := later number _ queue changed found
    rw [(next.linked number _ queue changed found).delivered_iff,
      if_pos (Bool.not_eq_false _ ▸ repeated)] at delivered
    exact List.append_ne_nil_of_right_ne_nil _ (List.cons_ne_nil item []) delivered
  · intro once number changed after there reached
    rw [(next.linked number changed after there reached).delivered_iff]
    rw [List.getElem?_map, Option.map_eq_some_iff] at there
    obtain ⟨registration, here, rfl⟩ := there
    obtain ⟨queue, found⟩ := invariant.queue here
    have before := routes number registration queue here found
    rw [(invariant.linked number registration queue here found).delivered_iff] at before
    change queues[number]? = _ at reached
    rw [arrived number registration queue here found] at reached
    obtain rfl := Option.some.inj reached
    by_cases meant : addressed registration = true
    · have single := once registration (List.mem_of_getElem? here) meant
      have twice : ¬ registration.repeated = true := by
        rw [single]
        exact Bool.false_ne_true
      rw [if_neg twice] at before
      rw [if_pos meant, if_pos (And.intro meant single)]
      exact (if_neg twice).mpr (before.trans (List.prefix_append _ _))
    · have apart : ¬ (addressed registration = true ∧ registration.repeated = false) :=
        fun both => meant both.1
      rw [if_neg meant, if_neg apart]
      exact before

/-! ### Steps -/

/-- A registration does not change what was there, and nothing is expected for it yet. -/
theorem Invariant.connected (invariant : Invariant null registrations state) (id : Nat) :
    Invariant null
      (registrations ++ [⟨id, registrations.any fun registration => registration.id = id, []⟩])
      { mPartitions :=
          if FiniteMap.contents state.mPartitions id = none then
            state.mPartitions.insert id state.queues.length
          else state.mPartitions
        queues := state.queues ++ [Queue.init] } := by
  have repeated : (registrations.any fun registration => registration.id = id) = true ↔
      FiniteMap.contents state.mPartitions id ≠ none := by
    rw [List.any_eq_true]
    constructor
    · rintro ⟨registration, member, same⟩
      rw [← of_decide_eq_true same]
      exact invariant.known registration member
    · intro found
      obtain ⟨number, there⟩ := Option.ne_none_iff_exists'.mp found
      obtain ⟨registration, here, same, _⟩ := (invariant.table id number).mp there
      exact ⟨registration, List.mem_of_getElem? here, decide_eq_true same⟩
  have table (other : Nat) : FiniteMap.contents
      (if FiniteMap.contents state.mPartitions id = none then
        state.mPartitions.insert id state.queues.length
      else state.mPartitions) other =
        if other = id ∧ FiniteMap.contents state.mPartitions id = none then
          some registrations.length
        else FiniteMap.contents state.mPartitions other := by
    by_cases fresh : FiniteMap.contents state.mPartitions id = none
    · rw [if_pos fresh, FiniteMap.contents_insert, invariant.length]
      by_cases here : other = id
      · rw [here, Function.update_self, if_pos ⟨rfl, fresh⟩]
      · rw [Function.update_of_ne here, if_neg fun both => here both.1]
    · rw [if_neg fresh, if_neg fun both => fresh both.2]
  refine ⟨?_, ?_, ?_, ?_⟩
  · rw [List.length_append, List.length_append, invariant.length]
    rfl
  · intro other number
    rw [table other]
    by_cases new : other = id ∧ FiniteMap.contents state.mPartitions id = none
    · rw [if_pos new]
      obtain ⟨rfl, fresh⟩ := new
      constructor
      · intro last
        obtain rfl := Option.some.inj last
        refine ⟨_, Transducer.getElem?_concat_iff.mpr (.inr ⟨rfl, rfl⟩), rfl, ?_⟩
        exact Bool.eq_false_iff.mpr fun again => repeated.mp again fresh
      · rintro ⟨registration, there, same, _⟩
        rcases Transducer.getElem?_concat_iff.mp there with before | ⟨rfl, _⟩
        · have known := invariant.known registration (List.mem_of_getElem? before)
          rw [same] at known
          exact absurd fresh known
        · rfl
    · rw [if_neg new, invariant.table other number]
      constructor
      · rintro ⟨registration, here, rest⟩
        exact ⟨registration, Transducer.getElem?_concat_iff.mpr (.inl here), rest⟩
      · rintro ⟨registration, there, same, once⟩
        rcases Transducer.getElem?_concat_iff.mp there with here | ⟨_, rfl⟩
        · exact ⟨registration, here, same, once⟩
        · exfalso
          apply new
          refine ⟨same.symm, ?_⟩
          by_contra found
          have again := repeated.mpr found
          exact Bool.false_ne_true (once.symm.trans again)
  · intro registration member
    rw [table]
    split
    · exact Option.some_ne_none _
    · rename_i old
      rcases List.mem_append.mp member with before | last
      · exact invariant.known registration before
      · obtain rfl := List.mem_singleton.mp last
        intro fresh
        exact old ⟨rfl, fresh⟩
  · intro number registration queue there found
    change (state.queues ++ [Queue.init])[number]? = _ at found
    rcases Transducer.getElem?_concat_iff.mp there with here | ⟨rfl, rfl⟩
    · rcases Transducer.getElem?_concat_iff.mp found with old | ⟨last, _⟩
      · exact invariant.linked number registration queue here old
      · have inside := (List.getElem?_eq_some_iff.mp here).1
        rw [last, invariant.length] at inside
        exact absurd inside (Nat.lt_irrefl _)
    · rw [← invariant.length, List.getElem?_concat_length] at found
      obtain rfl := Option.some.inj found
      exact ⟨Queue.pending_init null, fun _ => rfl, fun _ => rfl⟩

theorem Routes.connected (invariant : Invariant null registrations state)
    (routes : Routes registrations state) (id : Nat) {again : Bool}
    {table : FiniteMap.Entries Nat Nat} :
    Routes (registrations ++ [⟨id, again, []⟩])
      { mPartitions := table, queues := state.queues ++ [Queue.init] } := by
  intro number registration queue there found
  change (state.queues ++ [Queue.init])[number]? = _ at found
  rcases Transducer.getElem?_concat_iff.mp there with here | ⟨rfl, rfl⟩
  · rcases Transducer.getElem?_concat_iff.mp found with old | ⟨last, _⟩
    · exact routes number registration queue here old
    · have inside := (List.getElem?_eq_some_iff.mp here).1
      rw [last, invariant.length] at inside
      exact absurd inside (Nat.lt_irrefl _)
  · rw [← invariant.length, List.getElem?_concat_length] at found
    obtain rfl := Option.some.inj found
    exact ⟨List.nil_prefix, fun _ _ => rfl⟩

theorem length_foldl_modify {Entry : Type} (change : Entry → Entry) (places : List Nat)
    (entries : List Entry) :
    (places.foldl (fun entries place => entries.modify place change) entries).length =
      entries.length := by
  induction places generalizing entries with
  | nil => rfl
  | cons place places induction =>
      rw [List.foldl_cons, induction, List.length_modify]

/-- Queues that each get an entry, if they are named. -/
theorem getElem?_foldl_modify {Entry : Type} (change : Entry → Entry) {places : List Nat}
    (nodup : places.Nodup) (entries : List Entry) (number : Nat) :
    (places.foldl (fun entries place => entries.modify place change) entries)[number]? =
      (entries[number]?).map fun entry => if number ∈ places then change entry else entry := by
  induction places generalizing entries with
  | nil => simp
  | cons place places induction =>
      obtain ⟨fresh, rest⟩ := List.nodup_cons.mp nodup
      rw [List.foldl_cons, induction rest, List.getElem?_modify, Option.map_eq_map,
        Option.map_map]
      congr 1
      funext entry
      by_cases here : place = number
      · subst here
        simp [fresh]
      · have other : number ≠ place := fun same => here same.symm
        simp [here, other]

theorem Invariant.element_queues (invariant : Invariant null registrations state)
    (mFunc : Element → Nat) (data : Element) (outdated : Bool) {number : Nat}
    {registration : Registration Element Payload} {queue : Queue.State Element Payload}
    (here : registrations[number]? = some registration)
    (found : state.queues[number]? = some queue) :
    (processDataElement mFunc null state data outdated).queues[number]? =
      some (if decide (registration.id = mFunc data) = true ∧ registration.repeated = false then
        Queue.pushed null (.element data outdated) queue else queue) := by
  have table := invariant.table (mFunc data)
  rw [processDataElement]
  cases there : FiniteMap.contents state.mPartitions (mFunc data) with
  | none =>
      rw [if_neg]
      · exact found
      · intro both
        have known := invariant.known registration (List.mem_of_getElem? here)
        rw [of_decide_eq_true both.1] at known
        exact known there
  | some place =>
      obtain ⟨owner, ownerHere, ownerId, once⟩ := (table place).mp there
      change (state.queues.modify place _)[number]? = _
      rw [List.getElem?_modify, found, Option.map_eq_map, Option.map_some]
      congr 1
      apply if_congr _ rfl rfl
      constructor
      · rintro rfl
        obtain rfl := Option.some.inj (ownerHere.symm.trans here)
        exact ⟨decide_eq_true ownerId, once⟩
      · intro both
        have same := (table number).mpr ⟨registration, here, of_decide_eq_true both.1, both.2⟩
        exact Option.some.inj (there.symm.trans same)

theorem Invariant.punctuation_queues (invariant : Invariant null registrations state)
    (punctuation : Punctuation Payload) {number : Nat}
    {registration : Registration Element Payload} {queue : Queue.State Element Payload}
    (here : registrations[number]? = some registration)
    (found : state.queues[number]? = some queue) :
    (processPunctuation null state punctuation).queues[number]? =
      some (if true = true ∧ registration.repeated = false then
        Queue.pushed null (.punctuation punctuation) queue else queue) := by
  have nodup : (state.mPartitions.entries.map fun it => it.2).Nodup := by
    apply List.Nodup.map_on
    · rintro ⟨id, place⟩ member ⟨other, otherPlace⟩ otherMember same
      obtain rfl : place = otherPlace := same
      obtain ⟨first, firstHere, firstId, _⟩ :=
        (invariant.table id place).mp (FiniteMap.mem_contents_iff.mpr member)
      obtain ⟨second, secondHere, secondId, _⟩ :=
        (invariant.table other place).mp (FiniteMap.mem_contents_iff.mpr otherMember)
      obtain rfl := Option.some.inj (firstHere.symm.trans secondHere)
      rw [← firstId, ← secondId]
    · exact state.mPartitions.nodupKeys.nodup
  rw [processPunctuation]
  change (List.foldl _ _ _)[number]? = _
  rw [getElem?_foldl_modify _ nodup, found, Option.map_some]
  congr 1
  apply if_congr _ rfl rfl
  rw [List.mem_map, and_iff_right rfl]
  constructor
  · rintro ⟨⟨id, place⟩, member, rfl⟩
    obtain ⟨owner, ownerHere, _, once⟩ :=
      (invariant.table id place).mp (FiniteMap.mem_contents_iff.mpr member)
    obtain rfl := Option.some.inj (ownerHere.symm.trans here)
    exact once
  · intro once
    have there := (invariant.table registration.id number).mpr ⟨registration, here, rfl, once⟩
    exact ⟨⟨registration.id, number⟩, FiniteMap.mem_contents_iff.mp there, rfl⟩

/-- The thread of a queue has something to do only if the queue is in the table. -/
theorem Invariant.live (invariant : Invariant null registrations state) {place : Nat}
    {before after : Queue.State Element Payload} (found : state.queues[place]? = some before)
    {action : Queue.Action Element Payload}
    (stepped : Queue.step null before action = some after)
    (idle : Queue.step null (Queue.init : Queue.State Element Payload) action = none) :
    ∃ registration, registrations[place]? = some registration ∧
      ¬ registration.repeated = true := by
  have inside := (List.getElem?_eq_some_iff.mp found).1
  rw [invariant.length] at inside
  refine ⟨_, List.getElem?_eq_getElem inside, ?_⟩
  intro repeated
  have linked := invariant.linked place _ before (List.getElem?_eq_getElem inside) found
  rw [linked.lost repeated, idle] at stepped
  cases stepped

/-- A step of the thread of a queue. -/
theorem Invariant.consumed (invariant : Invariant null registrations state) {place : Nat}
    {before after : Queue.State Element Payload} (found : state.queues[place]? = some before)
    {action : Queue.Action Element Payload}
    (stepped : Queue.step null before action = some after)
    (same : after.received = before.received)
    (idle : Queue.step null (Queue.init : Queue.State Element Payload) action = none) :
    Invariant null registrations { state with queues := state.queues.set place after } ∧
      (Routes registrations state → before.published <+: before.received ∧
        (Routes registrations { state with queues := state.queues.set place after } ↔
          after.published <+: after.received)) := by
  obtain ⟨registration, here, once⟩ := invariant.live found stepped idle
  have earlier := invariant.linked place registration before here found
  have replaced : (state.queues.set place after)[place]? = some after :=
    List.getElem?_set_self (List.getElem?_eq_some_iff.mp found).1
  have later : Linked null registration after := by
    refine ⟨Queue.pending_step earlier.pending stepped, fun again => absurd again once, ?_⟩
    intro kept
    exact same.trans (earlier.kept kept)
  have next : Invariant null registrations
      { state with queues := state.queues.set place after } := by
    rw [← List.map_id registrations]
    apply invariant.update
    · exact fun _ => ⟨rfl, rfl⟩
    · exact List.length_set
    · intro number other queue now otherHere old reached linked
      by_cases there : place = number
      · subst there
        obtain rfl := Option.some.inj (here.symm.trans otherHere)
        obtain rfl := Option.some.inj (replaced.symm.trans reached)
        exact later
      · rw [List.getElem?_set_ne there] at reached
        obtain rfl := Option.some.inj (old.symm.trans reached)
        exact linked
  refine ⟨next, fun routes => ?_⟩
  have faithful := earlier.delivered_iff.mp (routes place registration before here found)
  rw [if_neg once] at faithful
  refine ⟨faithful, ?_⟩
  have delivered := later.delivered_iff
  rw [if_neg once] at delivered
  rw [← delivered]
  constructor
  · intro all
    exact all place registration after here replaced
  · intro good number other queue otherHere reached
    change (state.queues.set place after)[number]? = _ at reached
    by_cases there : place = number
    · subst there
      obtain rfl := Option.some.inj (here.symm.trans otherHere)
      obtain rfl := Option.some.inj (replaced.symm.trans reached)
      exact good
    · rw [List.getElem?_set_ne there] at reached
      exact routes number other queue otherHere reached

/-- What a step does to channels that got what they should get. -/
theorem step_iff {mFunc : Element → Nat} {mNumPartitions : Nat}
    (invariant : Invariant null registrations state) {action : Action Element Payload}
    {next : State Element Payload}
    (stepped : step mFunc mNumPartitions null state action = some next) :
    Invariant null (Registration.note mFunc registrations action) next ∧
      (Routes registrations state →
        (Routes (Registration.note mFunc registrations action) next ↔
          Undisturbed mFunc registrations state action)) := by
  cases action with
  | connectChannelsForPartition id =>
      rw [step, connectChannelsForPartition] at stepped
      split at stepped
      · obtain rfl := Option.some.inj stepped
        exact ⟨invariant.connected id,
          fun routes => iff_of_true (routes.connected invariant id) trivial⟩
      · cases stepped
  | processDataElement data outdated =>
      obtain rfl := Option.some.inj stepped
      have same : processDataElement mFunc null state data outdated =
          { state with
            queues := (processDataElement mFunc null state data outdated).queues } := by
        rw [processDataElement]
        split
        · rfl
        · rfl
      have length : (processDataElement mFunc null state data outdated).queues.length =
          state.queues.length := by
        rw [processDataElement]
        split
        · rfl
        · exact List.length_modify _ _ _
      obtain ⟨after, exact⟩ := invariant.arrival
        (fun registration => registration.id = mFunc data) length
        fun number registration queue here found =>
          invariant.element_queues mFunc data outdated here found
      rw [same]
      simp only [decide_eq_true_eq] at after exact
      exact ⟨after, exact⟩
  | processPunctuation punctuation =>
      obtain rfl := Option.some.inj stepped
      have length : (processPunctuation null state punctuation).queues.length =
          state.queues.length := length_foldl_modify _ _ _
      obtain ⟨after, exact⟩ := invariant.arrival (fun _ => true) length
        fun number registration queue here found =>
          invariant.punctuation_queues punctuation here found
      simp only [if_true, forall_const] at after exact
      exact ⟨after, exact⟩
  | pop place =>
      rw [step, consume, Option.bind_eq_some_iff] at stepped
      obtain ⟨before, found, moved⟩ := stepped
      obtain ⟨queue, taken, rfl⟩ := Option.map_eq_some_iff.mp moved
      obtain ⟨received, published⟩ := Queue.step_pop taken
      obtain ⟨after, consumed⟩ := invariant.consumed found taken received rfl
      refine ⟨after, fun routes => ?_⟩
      obtain ⟨faithful, exact⟩ := consumed routes
      rw [received, published] at exact
      exact exact.trans (iff_of_true faithful trivial)
  | publish place now =>
      rw [step, consume, Option.bind_eq_some_iff] at stepped
      obtain ⟨before, found, moved⟩ := stepped
      obtain ⟨queue, taken, rfl⟩ := Option.map_eq_some_iff.mp moved
      obtain ⟨registration, here⟩ := invariant.live found taken rfl
      have pending := (invariant.linked place registration before here.1 found).pending
      have received : queue.received = before.received := by
        obtain ⟨tp, _, rfl⟩ := Option.map_eq_some_iff.mp taken
        rfl
      obtain ⟨after, consumed⟩ := invariant.consumed found taken received rfl
      refine ⟨after, fun routes => ?_⟩
      obtain ⟨faithful, exact⟩ := consumed routes
      apply exact.trans
      rw [(Queue.step_publish_iff pending faithful taken).2]
      constructor
      · intro reproduced other item there turn
        obtain rfl := Option.some.inj (found.symm.trans there)
        exact reproduced item turn
      · intro reproduced item turn
        exact reproduced before item found turn

end

/-! ### Runs -/

section

variable {mFunc : Element → Nat} {mNumPartitions : Nat} {null : Element}

open TransitionSystem (run)

theorem invariant_init : Invariant null [] (init : State Element Payload) where
  length := rfl
  table := by
    intro id number
    rw [init, FiniteMap.contents_empty]
    refine iff_of_false (fun found => by cases found) ?_
    rintro ⟨registration, here, _⟩
    cases here
  known := by
    intro registration member
    cases member
  linked := by
    intro number registration queue here
    cases here

/-- After these actions the channels got what they should get. -/
def RoutesAfter (mFunc : Element → Nat) (mNumPartitions : Nat) (null : Element)
    (actions : List (Action Element Payload)) : Prop :=
  ∀ state, run (step mFunc mNumPartitions null) init actions = some state →
    Routes (Registration.all mFunc actions) state

theorem run_concat {actions : List (Action Element Payload)}
    {action : Action Element Payload} {final : State Element Payload}
    (ran : run (step mFunc mNumPartitions null) init (actions ++ [action]) = some final) :
    ∃ state, run (step mFunc mNumPartitions null) init actions = some state ∧
      step mFunc mNumPartitions null state action = some final := by
  rw [TransitionSystem.run_append, Option.bind_eq_some_iff] at ran
  obtain ⟨state, reached, stepped⟩ := ran
  simp only [run, Option.bind_eq_some_iff, Option.some.injEq] at stepped
  obtain ⟨next, stepped, rfl⟩ := stepped
  exact ⟨state, reached, stepped⟩

theorem invariant_run {actions : List (Action Element Payload)}
    {state : State Element Payload}
    (ran : run (step mFunc mNumPartitions null) init actions = some state) :
    Invariant null (Registration.all mFunc actions) state := by
  induction actions using List.reverseRecOn generalizing state with
  | nil =>
      cases ran
      exact invariant_init
  | append_singleton actions action induction =>
      obtain ⟨before, reached, stepped⟩ := run_concat ran
      rw [Registration.all_concat]
      exact (step_iff (induction reached) stepped).1

/-- Every channel gets the elements of its partition and all punctuations that arrive after
it was registered, in their order, if and only if nothing arrives for an id that was
registered repeatedly and every punctuation comes out of its queue as it went in. -/
theorem partitionBy_routes_iff {actions : List (Action Element Payload)}
    {final : State Element Payload}
    (ran : run (step mFunc mNumPartitions null) init actions = some final) :
    (∀ seen, seen <+: actions → RoutesAfter mFunc mNumPartitions null seen) ↔
      ∀ seen action, seen ++ [action] <+: actions → ∀ state,
        run (step mFunc mNumPartitions null) init seen = some state →
        Undisturbed mFunc (Registration.all mFunc seen) state action := by
  apply Transducer.forall_seen_iff
  · intro state reached number registration queue here
    cases here
  · intro seen action within routed
    obtain ⟨later, whole⟩ := within
    rw [← whole, TransitionSystem.run_append, Option.bind_eq_some_iff] at ran
    obtain ⟨next, there, _⟩ := ran
    obtain ⟨before, reached, stepped⟩ := run_concat there
    obtain ⟨_, exact⟩ := step_iff (invariant_run reached) stepped
    have routes := exact (routed before reached)
    constructor
    · intro all state again
      obtain rfl := Option.some.inj (reached.symm.trans again)
      apply routes.mp
      rw [← Registration.all_concat]
      exact all next there
    · intro undisturbed state again
      obtain rfl := Option.some.inj (there.symm.trans again)
      rw [Registration.all_concat]
      exact routes.mpr (undisturbed before reached)

/-- An element for a partition that is not registered yet, and one that goes through. -/
theorem partitionBy_routes_two :
    (∃ final, run (step (fun data => data % 2) 2 0) (init : State Nat Nat)
        [.connectChannelsForPartition 0, .processDataElement 3 false,
          .connectChannelsForPartition 1, .processDataElement 4 false, .pop 0,
          .publish 0 9] = some final) ∧
      ∀ seen : List (Action Nat Nat), seen <+: [.connectChannelsForPartition 0,
          .processDataElement 3 false, .connectChannelsForPartition 1,
          .processDataElement 4 false, .pop 0, .publish 0 9] →
        RoutesAfter (fun data => data % 2) 2 0 seen := by
  refine ⟨⟨_, rfl⟩, ?_⟩
  apply (partitionBy_routes_iff rfl).mpr
  simp only [Transducer.forall_arrivals_cons]
  refine ⟨?_, ?_, ?_, ?_, ?_, ?_, Transducer.forall_arrivals_nil _⟩
  · exact fun _ _ => trivial
  · intro state _
    change ∀ registration ∈ Registration.all (fun data : Nat => data % 2)
      [Action.connectChannelsForPartition 0], registration.id = 1 → registration.repeated = false
    decide
  · exact fun _ _ => trivial
  · intro state _
    change ∀ registration ∈ Registration.all (fun data : Nat => data % 2)
      [Action.connectChannelsForPartition 0, .processDataElement 3 false,
        .connectChannelsForPartition 1], registration.id = 0 → registration.repeated = false
    decide
  · exact fun _ _ => trivial
  · intro state reached before item there turn
    obtain rfl := Option.some.inj reached
    obtain rfl := Option.some.inj there
    obtain rfl := Option.some.inj turn
    intro punctuation other
    cases other

end

/-- The channels of a second registration get nothing. -/
theorem not_partitionBy_routes :
    ¬ ∀ (actions : List (Action Nat Nat)) (final : State Nat Nat),
      TransitionSystem.run (step (fun data => data % 2) 2 0) init actions = some final →
      ∀ seen, seen <+: actions → RoutesAfter (fun data => data % 2) 2 0 seen := by
  intro routed
  have routes := routed [.connectChannelsForPartition 0, .connectChannelsForPartition 0,
    .processDataElement 4 false] _ rfl _ List.prefix_rfl _ rfl
  have delivered := routes 1 _ _ rfl rfl
  exact absurd (delivered.complete rfl rfl) (List.cons_ne_nil _ _).symm

end PartitionBy

end PipeFabric
