import PipeFabric.Pubsub.Channels

/-!
# The lifetimes of subscriptions

The open subscriptions are in the sets of their two channels, and the slots of an output
channel are its open subscriptions in the order of their creation.  A subscription that
is connected is therefore owned by two living channels, so that its destructor never
finds it connected, and a slot never outlives the input channel it calls.
-/

namespace PipeFabric.Channels

/-- What a subscription was created with. -/
structure Origin where
  output : Nat
  input : Nat
  connection : UInt32

def Subscription.origin (subscription : Subscription) : Origin :=
  ⟨subscription.mPublisher, subscription.mSubscriber, subscription.mConnection⟩

/-- The subscriptions as they were created. -/
def System.origins (system : System) : List Origin :=
  system.subscriptions.map Subscription.origin

/-- The slot of a link. -/
def System.slotOf (system : System) (link : Link) : UInt32 × SlotFunction Nat :=
  ((system.origins[link.number]?.map Origin.connection).getD 0, some link.input)

/-- The links are what the channels and subscriptions say they are. -/
structure Represents (system : System) (links : List Link) : Prop where
  slots : ∀ output publisher, system.outputs output = some publisher →
    publisher.mSignal.mSlots = (linksFrom links output).map system.slotOf
  published : ∀ output publisher, system.outputs output = some publisher →
    publisher.mSubscriptions.Perm ((linksFrom links output).map Link.number)
  subscribed : ∀ input subscriber, system.inputs input = some subscriber →
    subscriber.mSubscriptions.Perm ((linksTo links input).map Link.number)
  known : ∀ link ∈ links, ∃ connection,
    system.subscriptions[link.number]? = some ⟨link.output, link.input, connection, true⟩
  connected : ∀ number subscription, system.subscriptions[number]? = some subscription →
    subscription.mIsConnected = true →
    (⟨number, subscription.mPublisher, subscription.mSubscriber⟩ : Link) ∈ links
  distinct : (links.map Link.number).Nodup

/-- The slot IDs of a channel are different, and smaller than the next one. -/
structure Numbered (system : System) : Prop where
  different : ∀ (first second : Nat) (earlier later : Origin),
    system.origins[first]? = some earlier → system.origins[second]? = some later →
    earlier.output = later.output → earlier.connection = later.connection → first = second
  counted : ∀ output publisher, system.outputs output = some publisher →
    publisher.mSignal.mNextSlotID.toNat =
      system.origins.countP fun origin => origin.output = output
  below : ∀ origin ∈ system.origins, origin.connection.toNat <
    system.origins.countP fun other => other.output = origin.output
  outputs : ∀ origin ∈ system.origins, origin.output < system.numOutputs
  inputs : ∀ origin ∈ system.origins, origin.input < system.numInputs
  unusedOutputs : ∀ output, system.numOutputs ≤ output → system.outputs output = none
  unusedInputs : ∀ input, system.numInputs ≤ input → system.inputs input = none
  handles : ∀ number ∈ system.handles, number < system.subscriptions.length

/-- Both channels of every link exist. -/
def EndsExist (system : System) (links : List Link) : Prop :=
  ∀ link ∈ links, (system.outputs link.output).isSome ∧ (system.inputs link.input).isSome

/-! ### Lists of links -/

/-- Of links with different numbers one is taken out. -/
theorem eraseP_map_of_unique {Slot : Type} {links : List Link} {slotOf : Link → Slot}
    {found : Slot → Bool} {number : Nat}
    (only : ∀ link ∈ links, found (slotOf link) = true ↔ link.number = number)
    (distinct : (links.map Link.number).Nodup) :
    (links.map slotOf).eraseP found =
      (links.filter fun link => link.number ≠ number).map slotOf := by
  induction links with
  | nil => rfl
  | cons link links induction =>
      obtain ⟨first, rest⟩ := List.forall_mem_cons.mp only
      obtain ⟨fresh, others⟩ := List.nodup_cons.mp distinct
      rw [List.map_cons, List.filter_cons]
      by_cases here : link.number = number
      · rw [List.eraseP_cons_of_pos (first.mpr here)]
        have kept : links.filter (fun other => other.number ≠ number) = links := by
          rw [List.filter_eq_self]
          intro other member
          have apart : other.number ≠ number := by
            intro same
            apply fresh
            rw [here, ← same]
            exact List.mem_map_of_mem member
          exact decide_eq_true apart
        rw [if_neg (by simpa using here), kept]
      · rw [List.eraseP_cons_of_neg (by rw [first]; exact here), induction rest others]
        simp [here]

theorem linksFrom_filter (links : List Link) (output number : Nat) :
    linksFrom (links.filter (·.number ≠ number)) output =
      (linksFrom links output).filter (·.number ≠ number) :=
  List.filter_comm _ _ _

theorem linksTo_filter (links : List Link) (input number : Nat) :
    linksTo (links.filter (·.number ≠ number)) input =
      (linksTo links input).filter (·.number ≠ number) :=
  List.filter_comm _ _ _

theorem map_number_filter (links : List Link) (number : Nat) :
    (links.filter (·.number ≠ number)).map Link.number =
      (links.map Link.number).filter (· ≠ number) := by
  rw [List.filter_map]
  rfl

/-- What is left of a set of subscriptions. -/
theorem erase_perm {numbers : List Nat} {links : List Link}
    (same : numbers.Perm (links.map Link.number)) (distinct : (links.map Link.number).Nodup)
    (number : Nat) :
    (numbers.erase number).Perm ((links.filter (·.number ≠ number)).map Link.number) := by
  have gone := distinct.erase_eq_filter number
  rw [map_number_filter]
  refine (same.erase number).trans ?_
  rw [gone]
  apply List.Perm.of_eq
  apply List.filter_congr
  intro other _
  apply Bool.eq_iff_iff.mpr
  simp

theorem nodup_part {links part : List Link} (distinct : (links.map Link.number).Nodup)
    (inside : part.Sublist links) : (part.map Link.number).Nodup :=
  distinct.sublist (inside.map _)

/-- Nothing is taken out where the link is not. -/
theorem filter_number_of_absent {links : List Link} {number : Nat}
    (absent : ∀ link ∈ links, link.number ≠ number) :
    links.filter (·.number ≠ number) = links := by
  rw [List.filter_eq_self]
  intro link member
  exact decide_eq_true (absent link member)

namespace Represents

variable {system : System} {links : List Link}

/-- The link of a number is unique. -/
theorem link_eq (represents : Represents system links) {first second : Link}
    (one : first ∈ links) (other : second ∈ links) (same : first.number = second.number) :
    first = second := by
  obtain ⟨left, leftIs⟩ := represents.known first one
  obtain ⟨right, rightIs⟩ := represents.known second other
  rw [same, rightIs] at leftIs
  obtain ⟨number, output, input⟩ := first
  obtain ⟨number', output', input'⟩ := second
  simp only [Option.some.injEq, Subscription.mk.injEq] at leftIs
  obtain ⟨rfl, rfl, _⟩ := leftIs
  cases same
  rfl

theorem origin_known (represents : Represents system links) {link : Link}
    (member : link ∈ links) : ∃ connection,
      system.origins[link.number]? = some ⟨link.output, link.input, connection⟩ := by
  obtain ⟨connection, entry⟩ := represents.known link member
  refine ⟨connection, ?_⟩
  rw [System.origins, List.getElem?_map, entry]
  rfl

/-- Among the slots of a channel, that of a link is told by its slot ID. -/
theorem slotOf_eq_iff (represents : Represents system links) (numbered : Numbered system)
    {link other : Link} (member : link ∈ links) (inside : other ∈ links)
    (same : other.output = link.output) :
    (system.slotOf other).1 = (system.slotOf link).1 ↔ other.number = link.number := by
  obtain ⟨connection, entry⟩ := represents.origin_known member
  obtain ⟨connection', entry'⟩ := represents.origin_known inside
  unfold System.slotOf
  rw [entry, entry']
  constructor
  · intro equal
    exact numbered.different _ _ _ _ entry' entry same equal
  · intro equal
    rw [equal, entry, Option.some.injEq, Origin.mk.injEq] at entry'
    exact entry'.2.2.symm

end Represents

/-! ### Closing a subscription -/

/-- What closing a connected subscription leaves. -/
def System.closed (system : System) (number : Nat) (subscription : Subscription) : System :=
  { system with
    outputs := Function.update system.outputs subscription.mPublisher
      ((system.outputs subscription.mPublisher).map fun publisher =>
        ⟨{ publisher.mSignal with
            mSlots := publisher.mSignal.mSlots.eraseP fun entry =>
              entry.1 = subscription.mConnection },
          publisher.mSubscriptions.erase number⟩)
    inputs := Function.update system.inputs subscription.mSubscriber
      ((system.inputs subscription.mSubscriber).map fun subscriber =>
        ⟨subscriber.mSubscriptions.erase number⟩)
    subscriptions := system.subscriptions.set number
      { subscription with mIsConnected := false } }

/-- Nothing but open subscriptions changes. -/
structure Alike (system later : System) : Prop where
  outputs : ∀ output, (later.outputs output).isSome = (system.outputs output).isSome
  inputs : ∀ input, (later.inputs input).isSome = (system.inputs input).isSome
  origins : later.origins = system.origins
  handles : later.handles = system.handles

theorem Alike.refl (system : System) : Alike system system :=
  ⟨fun _ => rfl, fun _ => rfl, rfl, rfl⟩

theorem Alike.trans {system later last : System} (first : Alike system later)
    (second : Alike later last) : Alike system last where
  outputs output := (second.outputs output).trans (first.outputs output)
  inputs input := (second.inputs input).trans (first.inputs input)
  origins := second.origins.trans first.origins
  handles := second.handles.trans first.handles

theorem Alike.endsExist {system later : System} {links : List Link}
    (alike : Alike system later) (exist : EndsExist system links) : EndsExist later links := by
  intro link member
  rw [alike.outputs, alike.inputs]
  exact exist link member

section

variable {system : System} {links : List Link} {number : Nat} {subscription : Subscription}

theorem closed_outputs_of_ne {output : Nat} (other : output ≠ subscription.mPublisher) :
    (system.closed number subscription).outputs output = system.outputs output :=
  Function.update_of_ne other _ _

theorem closed_inputs_of_ne {input : Nat} (other : input ≠ subscription.mSubscriber) :
    (system.closed number subscription).inputs input = system.inputs input :=
  Function.update_of_ne other _ _

theorem origins_closed (entry : system.subscriptions[number]? = some subscription) :
    (system.closed number subscription).origins = system.origins := by
  unfold System.origins System.closed
  dsimp only
  rw [List.map_set]
  apply List.ext_getElem?
  intro index
  rw [List.getElem?_set]
  split
  · next same =>
      subst same
      rw [List.getElem?_map, entry]
      split
      · rfl
      · next beyond =>
          have inside := (List.getElem?_eq_some_iff.mp entry).1
          rw [List.length_map] at beyond
          exact absurd inside beyond
  · rfl

theorem alike_closed (entry : system.subscriptions[number]? = some subscription) :
    Alike system (system.closed number subscription) where
  outputs output := by
    by_cases same : output = subscription.mPublisher
    · subst same
      simp only [System.closed, Function.update_self, Option.isSome_map]
    · rw [closed_outputs_of_ne same]
  inputs input := by
    by_cases same : input = subscription.mSubscriber
    · subst same
      simp only [System.closed, Function.update_self, Option.isSome_map]
    · rw [closed_inputs_of_ne same]
  origins := origins_closed entry
  handles := rfl

theorem slotOf_closed (entry : system.subscriptions[number]? = some subscription) (link : Link) :
    (system.closed number subscription).slotOf link = system.slotOf link := by
  unfold System.slotOf
  rw [origins_closed entry]

/-- Closing a connected subscription succeeds, when it is owned. -/
theorem closeSubscription_connected (represents : Represents system links)
    (entry : system.subscriptions[number]? = some subscription)
    (connected : subscription.mIsConnected = true) :
    system.closeSubscription number true = some (system.closed number subscription) := by
  have member := represents.connected number subscription entry connected
  have slotIs : (system.slotOf ⟨number, subscription.mPublisher,
      subscription.mSubscriber⟩).1 = subscription.mConnection := by
    unfold System.slotOf System.origins
    rw [List.getElem?_map, entry]
    rfl
  have left : system.leavePublisher number subscription true =
      some { system with
        outputs := (system.closed number subscription).outputs } := by
    unfold System.leavePublisher System.closed
    cases publisherIs : system.outputs subscription.mPublisher with
    | none =>
        simp only [Option.map_none]
        rw [← publisherIs, Function.update_eq_self]
    | some publisher =>
        have found : (publisher.mSignal.mSlots.find? fun entry =>
            entry.1 = subscription.mConnection).isSome := by
          rw [represents.slots _ _ publisherIs, List.find?_isSome]
          refine ⟨_, List.mem_map_of_mem (List.mem_filter.mpr ⟨member, ?_⟩), ?_⟩
          · exact decide_eq_true rfl
          · exact decide_eq_true slotIs
        obtain ⟨slot, slotFound⟩ := Option.isSome_iff_exists.mp found
        simp only [OneToManySignal.disconnect, slotFound, if_true, Option.map_some]
  unfold System.closeSubscription
  simp only [entry, connected, if_true, left, Option.bind_some]
  unfold System.leaveSubscriber System.closed
  cases subscriberIs : system.inputs subscription.mSubscriber with
  | none =>
      simp only [Option.map_some, Option.map_none]
      rw [← subscriberIs, Function.update_eq_self]
  | some subscriber => simp only [if_true, Option.map_some]

/-- Closing takes the link of the subscription away. -/
theorem Represents.closed (represents : Represents system links) (numbered : Numbered system)
    (entry : system.subscriptions[number]? = some subscription)
    (connected : subscription.mIsConnected = true) :
    Represents (system.closed number subscription) (links.filter (·.number ≠ number)) := by
  have member := represents.connected number subscription entry connected
  have absentFrom : ∀ output, output ≠ subscription.mPublisher →
      ∀ link ∈ linksFrom links output, link.number ≠ number := by
    intro output other link inside same
    obtain ⟨listed, from_⟩ := List.mem_filter.mp inside
    have equal := represents.link_eq listed member same
    rw [equal] at from_
    exact other (of_decide_eq_true from_).symm
  have absentTo : ∀ input, input ≠ subscription.mSubscriber →
      ∀ link ∈ linksTo links input, link.number ≠ number := by
    intro input other link inside same
    obtain ⟨listed, to_⟩ := List.mem_filter.mp inside
    have equal := represents.link_eq listed member same
    rw [equal] at to_
    exact other (of_decide_eq_true to_).symm
  constructor
  · intro output publisher publisherIs
    rw [funext (slotOf_closed entry), linksFrom_filter]
    by_cases same : output = subscription.mPublisher
    · subst same
      simp only [System.closed, Function.update_self, Option.map_eq_some_iff] at publisherIs
      obtain ⟨before, beforeIs, rfl⟩ := publisherIs
      rw [represents.slots _ _ beforeIs]
      apply eraseP_map_of_unique
      · intro link inside
        obtain ⟨listed, from_⟩ := List.mem_filter.mp inside
        have slotIs := represents.slotOf_eq_iff numbered member listed (of_decide_eq_true from_)
        rw [← slotIs, decide_eq_true_iff]
        unfold System.slotOf
        rw [System.origins, List.getElem?_map, List.getElem?_map, entry]
        rfl
      · exact nodup_part represents.distinct List.filter_sublist
    · rw [filter_number_of_absent (absentFrom output same)]
      rw [closed_outputs_of_ne same] at publisherIs
      exact represents.slots output publisher publisherIs
  · intro output publisher publisherIs
    rw [linksFrom_filter]
    by_cases same : output = subscription.mPublisher
    · subst same
      simp only [System.closed, Function.update_self, Option.map_eq_some_iff] at publisherIs
      obtain ⟨before, beforeIs, rfl⟩ := publisherIs
      exact erase_perm (represents.published _ _ beforeIs)
        (nodup_part represents.distinct List.filter_sublist) number
    · rw [filter_number_of_absent (absentFrom output same)]
      rw [closed_outputs_of_ne same] at publisherIs
      exact represents.published output publisher publisherIs
  · intro input subscriber subscriberIs
    rw [linksTo_filter]
    by_cases same : input = subscription.mSubscriber
    · subst same
      simp only [System.closed, Function.update_self, Option.map_eq_some_iff] at subscriberIs
      obtain ⟨before, beforeIs, rfl⟩ := subscriberIs
      exact erase_perm (represents.subscribed _ _ beforeIs)
        (nodup_part represents.distinct List.filter_sublist) number
    · rw [filter_number_of_absent (absentTo input same)]
      rw [closed_inputs_of_ne same] at subscriberIs
      exact represents.subscribed input subscriber subscriberIs
  · intro link inside
    obtain ⟨listed, other⟩ := List.mem_filter.mp inside
    rw [System.closed, List.getElem?_set_ne (of_decide_eq_true other).symm]
    exact represents.known link listed
  · intro other later laterIs open_
    rw [System.closed, List.getElem?_set] at laterIs
    split at laterIs
    · split at laterIs
      · cases laterIs
        cases open_
      · cases laterIs
    · next apart =>
        refine List.mem_filter.mpr ⟨represents.connected other later laterIs open_, ?_⟩
        exact decide_eq_true (Ne.symm apart)
  · exact nodup_part represents.distinct List.filter_sublist

theorem Numbered.alike {later : System} (numbered : Numbered system) (alike : Alike system later)
    (counters : ∀ output publisher, later.outputs output = some publisher →
      ∃ before, system.outputs output = some before ∧
        publisher.mSignal.mNextSlotID = before.mSignal.mNextSlotID)
    (numOutputs : later.numOutputs = system.numOutputs)
    (numInputs : later.numInputs = system.numInputs) : Numbered later where
  different := by
    rw [alike.origins]
    exact numbered.different
  counted output publisher publisherIs := by
    obtain ⟨before, beforeIs, same⟩ := counters output publisher publisherIs
    rw [same, alike.origins]
    exact numbered.counted output before beforeIs
  below := by
    rw [alike.origins]
    exact numbered.below
  outputs := by
    rw [alike.origins, numOutputs]
    exact numbered.outputs
  inputs := by
    rw [alike.origins, numInputs]
    exact numbered.inputs
  unusedOutputs output beyond := by
    rw [numOutputs] at beyond
    have nothing := alike.outputs output
    rw [numbered.unusedOutputs output beyond] at nothing
    exact Option.not_isSome_iff_eq_none.mp (by rw [nothing]; simp)
  unusedInputs input beyond := by
    rw [numInputs] at beyond
    have nothing := alike.inputs input
    rw [numbered.unusedInputs input beyond] at nothing
    exact Option.not_isSome_iff_eq_none.mp (by rw [nothing]; simp)
  handles := by
    have lengths := congrArg List.length alike.origins
    rw [System.origins, System.origins, List.length_map, List.length_map] at lengths
    rw [alike.handles, lengths]
    exact numbered.handles

/-- Closing a subscription that a pointer owns. -/
theorem closeSubscription_spec (represents : Represents system links)
    (numbered : Numbered system) (bound : number < system.subscriptions.length) :
    ∃ later, system.closeSubscription number true = some later ∧
      Represents later (links.filter (·.number ≠ number)) ∧ Numbered later ∧
      Alike system later ∧
      ∃ subscription, later.subscriptions[number]? = some subscription ∧
        subscription.mIsConnected = false := by
  have entry := List.getElem?_eq_getElem bound
  cases connected : (system.subscriptions[number]).mIsConnected with
  | true =>
      have alike := alike_closed entry
      refine ⟨_, closeSubscription_connected represents entry connected,
        represents.closed numbered entry connected, ?_, alike, ?_⟩
      · apply numbered.alike alike
        · intro output publisher publisherIs
          by_cases same : output = (system.subscriptions[number]).mPublisher
          · subst same
            simp only [System.closed, Function.update_self, Option.map_eq_some_iff]
              at publisherIs
            obtain ⟨before, beforeIs, rfl⟩ := publisherIs
            exact ⟨before, beforeIs, rfl⟩
          · rw [closed_outputs_of_ne same] at publisherIs
            exact ⟨publisher, publisherIs, rfl⟩
        · rfl
        · rfl
      · exact ⟨_, List.getElem?_set_self bound, rfl⟩
  | false =>
      refine ⟨system, ?_, ?_, numbered, .refl system, _, entry, connected⟩
      · unfold System.closeSubscription
        simp only [entry, connected, Bool.false_eq_true, if_false]
      · rw [filter_number_of_absent]
        · exact represents
        · intro link member same
          obtain ⟨connection, known⟩ := represents.known link member
          rw [same, entry, Option.some.injEq] at known
          rw [known] at connected
          cases connected

/-- The destructor of a closed subscription does nothing. -/
theorem released_of_closed (entry : system.subscriptions[number]? = some subscription)
    (closed : subscription.mIsConnected = false) : system.released number = some system := by
  unfold System.released System.closeSubscription
  simp only [entry, closed, Bool.false_eq_true, if_false, ite_self]

/-- The destructor of a channel closes its subscriptions. -/
theorem destroySubscriptions_spec {order : List Nat} (represents : Represents system links)
    (numbered : Numbered system)
    (bound : ∀ number ∈ order, number < system.subscriptions.length) :
    ∃ later, system.destroySubscriptions order = some later ∧
      Represents later (links.filter (·.number ∉ order)) ∧ Numbered later ∧
      Alike system later := by
  induction order generalizing system links with
  | nil =>
      refine ⟨system, rfl, ?_, numbered, .refl system⟩
      have all : links.filter (fun link => link.number ∉ []) = links := by
        rw [List.filter_eq_self]
        intro link _
        exact decide_eq_true List.not_mem_nil
      rw [all]
      exact represents
  | cons number order induction =>
      obtain ⟨here, rest⟩ := List.forall_mem_cons.mp bound
      obtain ⟨closed, closes, closedRepresents, closedNumbered, alike, other, entry,
        disconnected⟩ := closeSubscription_spec represents numbered here
      have lengths := congrArg List.length alike.origins
      rw [System.origins, System.origins, List.length_map, List.length_map] at lengths
      obtain ⟨later, destroys, laterRepresents, laterNumbered, laterAlike⟩ :=
        induction closedRepresents closedNumbered (by rw [lengths]; exact rest)
      refine ⟨later, ?_, ?_, laterNumbered, alike.trans laterAlike⟩
      · unfold System.destroySubscriptions
        rw [closes, Option.bind_some, released_of_closed entry disconnected, Option.bind_some]
        exact destroys
      · rw [List.filter_filter] at laterRepresents
        have same : (fun link : Link => decide (link.number ∉ order) &&
            decide (link.number ≠ number)) =
            fun link => decide (link.number ∉ number :: order) := by
          funext link
          rw [← Bool.decide_and, decide_eq_decide, List.mem_cons, not_or, and_comm]
        rw [same] at laterRepresents
        exact laterRepresents

end

/-! ### Programs -/

/-- What holds between two actions of a program. -/
structure Consistent (system : System) (links : Links) : Prop where
  represents : Represents system links.opened
  numbered : Numbered system
  exist : EndsExist system links.opened
  count : links.count = system.subscriptions.length

section

variable {system : System} {links : Links}

theorem consistent_init : Consistent .init ⟨[], 0⟩ where
  represents := by
    constructor
    · exact fun _ _ absurdity => absurd absurdity (by simp [System.init])
    · exact fun _ _ absurdity => absurd absurdity (by simp [System.init])
    · exact fun _ _ absurdity => absurd absurdity (by simp [System.init])
    · exact fun _ absurdity => absurd absurdity List.not_mem_nil
    · exact fun _ _ absurdity => absurd absurdity (by simp [System.init])
    · exact List.nodup_nil
  numbered := by
    constructor
    · exact fun _ _ _ _ absurdity => absurd absurdity (by simp [System.init, System.origins])
    · exact fun _ _ absurdity => absurd absurdity (by simp [System.init])
    · exact fun _ absurdity => absurd absurdity (by simp [System.init, System.origins])
    · exact fun _ absurdity => absurd absurdity (by simp [System.init, System.origins])
    · exact fun _ absurdity => absurd absurdity (by simp [System.init, System.origins])
    · exact fun _ _ => rfl
    · exact fun _ _ => rfl
    · exact fun _ absurdity => absurd absurdity List.not_mem_nil
  exist := fun _ absurdity => absurd absurdity List.not_mem_nil
  count := rfl

theorem Consistent.output_lt (consistent : Consistent system links) {link : Link}
    (member : link ∈ links.opened) : link.output < system.numOutputs := by
  obtain ⟨connection, entry⟩ := consistent.represents.origin_known member
  exact consistent.numbered.outputs _ (List.mem_of_getElem? entry)

theorem Consistent.input_lt (consistent : Consistent system links) {link : Link}
    (member : link ∈ links.opened) : link.input < system.numInputs := by
  obtain ⟨connection, entry⟩ := consistent.represents.origin_known member
  exact consistent.numbered.inputs _ (List.mem_of_getElem? entry)

theorem Consistent.number_lt (consistent : Consistent system links) {link : Link}
    (member : link ∈ links.opened) : link.number < system.subscriptions.length := by
  obtain ⟨connection, entry⟩ := consistent.represents.known link member
  exact (List.getElem?_eq_some_iff.mp entry).1

theorem linksFrom_eq_nil {opened : List Link} {output : Nat}
    (none : ∀ link ∈ opened, link.output ≠ output) : linksFrom opened output = [] := by
  rw [linksFrom, List.filter_eq_nil_iff]
  intro link member
  simpa using none link member

theorem linksTo_eq_nil {opened : List Link} {input : Nat}
    (none : ∀ link ∈ opened, link.input ≠ input) : linksTo opened input = [] := by
  rw [linksTo, List.filter_eq_nil_iff]
  intro link member
  simpa using none link member

/-- What a step does to a consistent system, with the links it leads to. -/
def Leads (system : System) (action : Action) (links : Links) : Prop :=
  ∃ next, step system action = some next ∧ Consistent next links

theorem createOutput_leads (consistent : Consistent system links) :
    Leads system .createOutput (links.step .createOutput) := by
  refine ⟨_, rfl, ?_, ?_, ?_, consistent.count⟩
  · have fresh : linksFrom links.opened system.numOutputs = [] := by
      apply linksFrom_eq_nil
      intro link member
      exact Nat.ne_of_lt (consistent.output_lt member)
    constructor
    · intro output publisher publisherIs
      by_cases same : output = system.numOutputs
      · subst same
        simp only [Function.update_self, Option.some.injEq] at publisherIs
        subst publisher
        exact (congrArg (List.map _) fresh).symm
      · simp only [Function.update_of_ne same] at publisherIs
        exact consistent.represents.slots output publisher publisherIs
    · intro output publisher publisherIs
      by_cases same : output = system.numOutputs
      · subst same
        simp only [Function.update_self, Option.some.injEq] at publisherIs
        subst publisher
        exact List.Perm.of_eq (congrArg (List.map _) fresh).symm
      · simp only [Function.update_of_ne same] at publisherIs
        exact consistent.represents.published output publisher publisherIs
    · exact consistent.represents.subscribed
    · exact consistent.represents.known
    · exact consistent.represents.connected
    · exact consistent.represents.distinct
  · constructor
    · exact consistent.numbered.different
    · intro output publisher publisherIs
      by_cases same : output = system.numOutputs
      · subst same
        simp only [Function.update_self, Option.some.injEq] at publisherIs
        subst publisher
        symm
        apply List.countP_eq_zero.mpr
        intro origin member
        have below := consistent.numbered.outputs origin member
        simpa using Nat.ne_of_lt below
      · simp only [Function.update_of_ne same] at publisherIs
        exact consistent.numbered.counted output publisher publisherIs
    · exact consistent.numbered.below
    · exact fun origin member => Nat.lt_succ_of_lt (consistent.numbered.outputs origin member)
    · exact consistent.numbered.inputs
    · intro output beyond
      dsimp only at beyond ⊢
      rw [Function.update_of_ne (by omega)]
      exact consistent.numbered.unusedOutputs output (by omega)
    · exact consistent.numbered.unusedInputs
    · exact consistent.numbered.handles
  · intro link member
    have apart := Nat.ne_of_lt (consistent.output_lt member)
    simp only [Function.update_of_ne apart]
    exact consistent.exist link member

theorem createInput_leads (consistent : Consistent system links) :
    Leads system .createInput (links.step .createInput) := by
  refine ⟨_, rfl, ?_, ?_, ?_, consistent.count⟩
  · have fresh : linksTo links.opened system.numInputs = [] := by
      apply linksTo_eq_nil
      intro link member
      exact Nat.ne_of_lt (consistent.input_lt member)
    constructor
    · exact consistent.represents.slots
    · exact consistent.represents.published
    · intro input subscriber subscriberIs
      by_cases same : input = system.numInputs
      · subst same
        simp only [Function.update_self, Option.some.injEq] at subscriberIs
        subst subscriber
        exact List.Perm.of_eq (congrArg (List.map _) fresh).symm
      · simp only [Function.update_of_ne same] at subscriberIs
        exact consistent.represents.subscribed input subscriber subscriberIs
    · exact consistent.represents.known
    · exact consistent.represents.connected
    · exact consistent.represents.distinct
  · constructor
    · exact consistent.numbered.different
    · exact consistent.numbered.counted
    · exact consistent.numbered.below
    · exact consistent.numbered.outputs
    · exact fun origin member => Nat.lt_succ_of_lt (consistent.numbered.inputs origin member)
    · exact consistent.numbered.unusedOutputs
    · intro input beyond
      dsimp only at beyond ⊢
      rw [Function.update_of_ne (by omega)]
      exact consistent.numbered.unusedInputs input (by omega)
    · exact consistent.numbered.handles
  · intro link member
    have apart := Nat.ne_of_lt (consistent.input_lt member)
    simp only [Function.update_of_ne apart]
    exact consistent.exist link member

theorem close_leads (consistent : Consistent system links) {number : Nat}
    (allowed : Allowed system (.close number)) :
    Leads system (.close number) (links.step (.close number)) := by
  obtain ⟨later, closes, represents, numbered, alike, _⟩ :=
    closeSubscription_spec consistent.represents consistent.numbered
      (consistent.numbered.handles number allowed)
  have lengths := congrArg List.length alike.origins
  rw [System.origins, System.origins, List.length_map, List.length_map] at lengths
  refine ⟨later, closes, represents, numbered, ?_, consistent.count.trans lengths.symm⟩
  apply alike.endsExist
  exact fun link member => consistent.exist link (List.mem_of_mem_filter member)

/-- A connected subscription is owned by its channels. -/
theorem Consistent.owned (consistent : Consistent system links) {number : Nat}
    {subscription : Subscription} (entry : system.subscriptions[number]? = some subscription)
    (connected : subscription.mIsConnected = true) :
    ∃ publisher, system.outputs subscription.mPublisher = some publisher ∧
      number ∈ publisher.mSubscriptions := by
  have member := consistent.represents.connected number subscription entry connected
  obtain ⟨publisher, publisherIs⟩ :=
    Option.isSome_iff_exists.mp (consistent.exist _ member).1
  refine ⟨publisher, publisherIs, ?_⟩
  rw [(consistent.represents.published _ _ publisherIs).mem_iff]
  exact List.mem_map.mpr
    ⟨_, List.mem_filter.mpr ⟨member, decide_eq_true rfl⟩, rfl⟩

theorem release_leads (consistent : Consistent system links) {number : Nat}
    (allowed : Allowed system (.release number)) :
    Leads system (.release number) (links.step (.release number)) := by
  have bound := consistent.numbered.handles number allowed
  have entry := List.getElem?_eq_getElem bound
  have after : Consistent { system with handles := system.handles.erase number } links := by
    refine ⟨?_, ?_, consistent.exist, consistent.count⟩
    · exact ⟨consistent.represents.slots, consistent.represents.published,
        consistent.represents.subscribed, consistent.represents.known,
        consistent.represents.connected, consistent.represents.distinct⟩
    · exact ⟨consistent.numbered.different, consistent.numbered.counted,
        consistent.numbered.below, consistent.numbered.outputs, consistent.numbered.inputs,
        consistent.numbered.unusedOutputs, consistent.numbered.unusedInputs,
        fun other member => consistent.numbered.handles other (List.mem_of_mem_erase member)⟩
  refine ⟨_, ?_, after⟩
  cases connected : (system.subscriptions[number]).mIsConnected with
  | true =>
      obtain ⟨publisher, publisherIs, member⟩ := consistent.owned entry connected
      have owned : ({ system with handles := system.handles.erase number } : System).owned
          number := .inr ⟨_, entry, .inl ⟨publisher, publisherIs, member⟩⟩
      simp only [step, System.released, if_pos owned]
  | false => exact released_of_closed entry connected

/-- The links whose numbers are in the set of an output channel are the links of this
channel. -/
theorem filter_output (consistent : Consistent system links) {output : Nat}
    {order : List Nat}
    (all : order.Perm ((linksFrom links.opened output).map Link.number)) :
    links.opened.filter (·.number ∉ order) = links.opened.filter (·.output ≠ output) := by
  apply List.filter_congr
  intro link member
  rw [decide_eq_decide, all.mem_iff, not_iff_not, List.mem_map]
  constructor
  · intro inside
    obtain ⟨other, otherMember, same⟩ := inside
    obtain ⟨listed, from_⟩ := List.mem_filter.mp otherMember
    rw [← consistent.represents.link_eq listed member same]
    exact of_decide_eq_true from_
  · intro from_
    exact ⟨link, List.mem_filter.mpr ⟨member, decide_eq_true from_⟩, rfl⟩

theorem filter_input (consistent : Consistent system links) {input : Nat}
    {order : List Nat} (all : order.Perm ((linksTo links.opened input).map Link.number)) :
    links.opened.filter (·.number ∉ order) = links.opened.filter (·.input ≠ input) := by
  apply List.filter_congr
  intro link member
  rw [decide_eq_decide, all.mem_iff, not_iff_not, List.mem_map]
  constructor
  · intro inside
    obtain ⟨other, otherMember, same⟩ := inside
    obtain ⟨listed, to_⟩ := List.mem_filter.mp otherMember
    rw [← consistent.represents.link_eq listed member same]
    exact of_decide_eq_true to_
  · intro to_
    exact ⟨link, List.mem_filter.mpr ⟨member, decide_eq_true to_⟩, rfl⟩

theorem destroyOutput_leads (consistent : Consistent system links) {output : Nat}
    {order : List Nat} (allowed : Allowed system (.destroyOutput output order)) :
    Leads system (.destroyOutput output order) (links.step (.destroyOutput output order)) := by
  obtain ⟨publisher, publisherIs, whole⟩ := allowed
  have all := whole.trans (consistent.represents.published _ _ publisherIs)
  have inside : ∀ number ∈ order, number < system.subscriptions.length := by
    intro number member
    obtain ⟨link, linkMember, rfl⟩ := List.mem_map.mp (all.mem_iff.mp member)
    exact consistent.number_lt (List.mem_of_mem_filter linkMember)
  have gone : ∀ other later,
      Function.update system.outputs output none other = some later →
        system.outputs other = some later := by
    intro other later laterIs
    by_cases same : other = output
    · subst same
      rw [Function.update_self] at laterIs
      cases laterIs
    · rw [Function.update_of_ne same] at laterIs
      exact laterIs
  have represents : Represents
      { system with outputs := Function.update system.outputs output none } links.opened := by
    refine ⟨?_, ?_, consistent.represents.subscribed, consistent.represents.known,
      consistent.represents.connected, consistent.represents.distinct⟩
    · exact fun other later laterIs =>
        consistent.represents.slots other later (gone other later laterIs)
    · exact fun other later laterIs =>
        consistent.represents.published other later (gone other later laterIs)
  have numbered : Numbered
      { system with outputs := Function.update system.outputs output none } := by
    refine ⟨consistent.numbered.different, ?_, consistent.numbered.below,
      consistent.numbered.outputs, consistent.numbered.inputs, ?_,
      consistent.numbered.unusedInputs, consistent.numbered.handles⟩
    · exact fun other later laterIs =>
        consistent.numbered.counted other later (gone other later laterIs)
    · intro other beyond
      have unused := consistent.numbered.unusedOutputs other beyond
      by_cases same : other = output
      · exact same ▸ Function.update_self ..
      · exact (Function.update_of_ne same _ _).trans unused
  obtain ⟨later, destroys, laterRepresents, laterNumbered, alike⟩ :=
    destroySubscriptions_spec represents numbered inside
  rw [filter_output consistent all] at laterRepresents
  have lengths := congrArg List.length alike.origins
  rw [System.origins, System.origins, List.length_map, List.length_map] at lengths
  refine ⟨later, destroys, laterRepresents, laterNumbered, ?_,
    consistent.count.trans lengths.symm⟩
  apply alike.endsExist
  intro link member
  obtain ⟨listed, other⟩ := List.mem_filter.mp member
  dsimp only
  rw [Function.update_of_ne (of_decide_eq_true other)]
  exact consistent.exist link listed

theorem destroyInput_leads (consistent : Consistent system links) {input : Nat}
    {order : List Nat} (allowed : Allowed system (.destroyInput input order)) :
    Leads system (.destroyInput input order) (links.step (.destroyInput input order)) := by
  obtain ⟨subscriber, subscriberIs, whole⟩ := allowed
  have all := whole.trans (consistent.represents.subscribed _ _ subscriberIs)
  have inside : ∀ number ∈ order, number < system.subscriptions.length := by
    intro number member
    obtain ⟨link, linkMember, rfl⟩ := List.mem_map.mp (all.mem_iff.mp member)
    exact consistent.number_lt (List.mem_of_mem_filter linkMember)
  have represents : Represents
      { system with inputs := Function.update system.inputs input none } links.opened := by
    refine ⟨consistent.represents.slots, consistent.represents.published, ?_,
      consistent.represents.known, consistent.represents.connected,
      consistent.represents.distinct⟩
    intro other later laterIs
    by_cases same : other = input
    · subst same
      simp only [Function.update_self, reduceCtorEq] at laterIs
    · simp only [Function.update_of_ne same] at laterIs
      exact consistent.represents.subscribed other later laterIs
  have numbered : Numbered
      { system with inputs := Function.update system.inputs input none } := by
    refine ⟨consistent.numbered.different, consistent.numbered.counted,
      consistent.numbered.below, consistent.numbered.outputs, consistent.numbered.inputs,
      consistent.numbered.unusedOutputs, ?_, consistent.numbered.handles⟩
    intro other beyond
    have unused := consistent.numbered.unusedInputs other beyond
    by_cases same : other = input
    · exact same ▸ Function.update_self ..
    · exact (Function.update_of_ne same _ _).trans unused
  obtain ⟨later, destroys, laterRepresents, laterNumbered, alike⟩ :=
    destroySubscriptions_spec represents numbered inside
  rw [filter_input consistent all] at laterRepresents
  have lengths := congrArg List.length alike.origins
  rw [System.origins, System.origins, List.length_map, List.length_map] at lengths
  refine ⟨later, destroys, laterRepresents, laterNumbered, ?_,
    consistent.count.trans lengths.symm⟩
  apply alike.endsExist
  intro link member
  obtain ⟨listed, other⟩ := List.mem_filter.mp member
  dsimp only
  rw [Function.update_of_ne (of_decide_eq_true other)]
  exact consistent.exist link listed

/-- The origins with one more subscription. -/
theorem getElem?_origins_concat {origins : List Origin} {last origin : Origin} {number : Nat}
    (entry : (origins ++ [last])[number]? = some origin) :
    origins[number]? = some origin ∨ number = origins.length ∧ last = origin := by
  rw [List.getElem?_append] at entry
  split at entry
  · exact .inl entry
  · next beyond =>
      right
      obtain ⟨inside, same⟩ := List.getElem?_eq_some_iff.mp entry
      rw [List.length_singleton] at inside
      refine ⟨by omega, ?_⟩
      rw [← same]
      exact (List.getElem_singleton _).symm

/-- A subscription that connects two channels that exist. -/
def System.linked (system : System) (output input : Nat) (publisher : OutputChannel)
    (subscriber : InputChannel) : System :=
  let connected := publisher.mSignal.connect (some input)
  { system with
    outputs := Function.update system.outputs output
      (some ⟨connected.1, publisher.mSubscriptions.insert system.subscriptions.length⟩)
    inputs := Function.update system.inputs input
      (some ⟨subscriber.mSubscriptions.insert system.subscriptions.length⟩)
    subscriptions := system.subscriptions ++ [⟨output, input, connected.2, true⟩]
    handles := system.handles ++ [system.subscriptions.length] }

section

variable {output input : Nat} {publisher : OutputChannel} {subscriber : InputChannel}

theorem origins_linked :
    (system.linked output input publisher subscriber).origins =
      system.origins ++ [⟨output, input, publisher.mSignal.mNextSlotID⟩] := by
  unfold System.origins System.linked
  rw [List.map_append]
  rfl

theorem length_origins (system : System) :
    system.origins.length = system.subscriptions.length := by
  unfold System.origins
  exact List.length_map _

theorem slotOf_linked {link : Link} (bound : link.number < system.subscriptions.length) :
    (system.linked output input publisher subscriber).slotOf link = system.slotOf link := by
  unfold System.slotOf
  rw [origins_linked, List.getElem?_append_left (by rw [length_origins]; exact bound)]

theorem slotOf_latest :
    (system.linked output input publisher subscriber).slotOf
        ⟨system.subscriptions.length, output, input⟩ =
      (publisher.mSignal.mNextSlotID, some input) := by
  unfold System.slotOf
  rw [origins_linked, ← length_origins, List.getElem?_concat_length]
  rfl

theorem map_slotOf_linked (consistent : Consistent system links) (other : Nat) :
    (linksFrom links.opened other).map
        (system.linked output input publisher subscriber).slotOf =
      (linksFrom links.opened other).map system.slotOf := by
  apply List.map_congr_left
  intro link member
  exact slotOf_linked (consistent.number_lt (List.mem_of_mem_filter member))

/-- A new number joins a set of subscriptions. -/
theorem insert_perm {numbers : List Nat} {opened : List Link} (last : Link)
    (same : numbers.Perm (opened.map Link.number))
    (fresh : ∀ link ∈ opened, link.number < last.number) :
    (numbers.insert last.number).Perm ((opened ++ [last]).map Link.number) := by
  have new : last.number ∉ numbers := by
    intro present
    obtain ⟨link, member, equal⟩ := List.mem_map.mp (same.mem_iff.mp present)
    exact Nat.lt_irrefl _ (equal ▸ fresh link member)
  rw [List.insert_of_not_mem new, List.map_append, List.map_singleton]
  exact (same.cons _).trans (List.perm_append_singleton _ _).symm

theorem linksFrom_concat (opened : List Link) (last : Link) (other : Nat) :
    linksFrom (opened ++ [last]) other =
      linksFrom opened other ++ if last.output = other then [last] else [] := by
  unfold linksFrom
  rw [List.filter_append, List.filter_cons, List.filter_nil]
  simp only [decide_eq_true_eq]

theorem linksTo_concat (opened : List Link) (last : Link) (other : Nat) :
    linksTo (opened ++ [last]) other =
      linksTo opened other ++ if last.input = other then [last] else [] := by
  unfold linksTo
  rw [List.filter_append, List.filter_cons, List.filter_nil]
  simp only [decide_eq_true_eq]

theorem linked_represents (consistent : Consistent system links)
    (publisherIs : system.outputs output = some publisher)
    (subscriberIs : system.inputs input = some subscriber) :
    Represents (system.linked output input publisher subscriber)
      (links.opened ++ [⟨system.subscriptions.length, output, input⟩]) := by
  have fresh : ∀ link ∈ links.opened, link.number < system.subscriptions.length :=
    fun link member => consistent.number_lt member
  constructor
  · intro other later laterIs
    rw [linksFrom_concat, List.map_append, map_slotOf_linked consistent]
    by_cases same : other = output
    · subst same
      simp only [System.linked, Function.update_self, Option.some.injEq] at laterIs
      subst later
      rw [if_pos rfl, List.map_singleton, slotOf_latest,
        ← consistent.represents.slots _ _ publisherIs]
      rfl
    · simp only [System.linked, Function.update_of_ne same] at laterIs
      rw [if_neg (Ne.symm same), List.map_nil, List.append_nil]
      exact consistent.represents.slots other later laterIs
  · intro other later laterIs
    rw [linksFrom_concat]
    by_cases same : other = output
    · subst same
      simp only [System.linked, Function.update_self, Option.some.injEq] at laterIs
      subst later
      rw [if_pos rfl]
      exact insert_perm ⟨_, other, input⟩ (consistent.represents.published _ _ publisherIs)
        fun link member => fresh link (List.mem_of_mem_filter member)
    · simp only [System.linked, Function.update_of_ne same] at laterIs
      rw [if_neg (Ne.symm same), List.append_nil]
      exact consistent.represents.published other later laterIs
  · intro other later laterIs
    rw [linksTo_concat]
    by_cases same : other = input
    · subst same
      simp only [System.linked, Function.update_self, Option.some.injEq] at laterIs
      subst later
      rw [if_pos rfl]
      exact insert_perm ⟨_, output, other⟩ (consistent.represents.subscribed _ _ subscriberIs)
        fun link member => fresh link (List.mem_of_mem_filter member)
    · simp only [System.linked, Function.update_of_ne same] at laterIs
      rw [if_neg (Ne.symm same), List.append_nil]
      exact consistent.represents.subscribed other later laterIs
  · intro link member
    rcases List.mem_append.mp member with old | new
    · obtain ⟨connection, entry⟩ := consistent.represents.known link old
      refine ⟨connection, ?_⟩
      rw [System.linked, List.getElem?_append_left (fresh link old)]
      exact entry
    · rw [List.mem_singleton.mp new]
      exact ⟨_, List.getElem?_concat_length⟩
  · intro number subscription entry connected
    rw [System.linked, List.getElem?_append] at entry
    split at entry
    · exact List.mem_append_left _ (consistent.represents.connected _ _ entry connected)
    · next beyond =>
        obtain ⟨inside, same⟩ := List.getElem?_eq_some_iff.mp entry
        rw [List.length_singleton] at inside
        have last : number = system.subscriptions.length := by omega
        subst last
        rw [List.getElem_singleton] at same
        subst same
        exact List.mem_append_right _ (List.mem_singleton_self _)
  · rw [List.map_append, List.map_singleton]
    apply List.nodup_append.mpr
    refine ⟨consistent.represents.distinct, List.nodup_cons.mpr ⟨List.not_mem_nil, List.nodup_nil⟩, ?_⟩
    intro number old last new same
    obtain ⟨link, member, rfl⟩ := List.mem_map.mp old
    have below := fresh link member
    rw [same, List.mem_singleton.mp new] at below
    exact Nat.lt_irrefl _ below

theorem linked_numbered (consistent : Consistent system links)
    (publisherIs : system.outputs output = some publisher)
    (subscriberIs : system.inputs input = some subscriber)
    (few : (system.subscriptions.countP fun other => other.mPublisher = output) + 1 < 2 ^ 32) :
    Numbered (system.linked output input publisher subscriber) := by
  have numbered := consistent.numbered
  have counter := numbered.counted _ _ publisherIs
  have few' : (system.origins.countP fun origin => origin.output = output) + 1 < 2 ^ 32 := by
    rw [System.origins, List.countP_map]
    exact few
  have outputUsed : output < system.numOutputs := by
    by_contra beyond
    rw [numbered.unusedOutputs output (Nat.le_of_not_lt beyond)] at publisherIs
    cases publisherIs
  have inputUsed : input < system.numInputs := by
    by_contra beyond
    rw [numbered.unusedInputs input (Nat.le_of_not_lt beyond)] at subscriberIs
    cases subscriberIs
  -- the slot ID of a new subscription is larger than those of the channel before
  have larger : ∀ (number : Nat) (origin : Origin), system.origins[number]? = some origin →
      origin.output = output → origin.connection ≠ publisher.mSignal.mNextSlotID := by
    intro number origin entry from_ same
    have below := numbered.below origin (List.mem_of_getElem? entry)
    rw [from_, same, counter] at below
    exact Nat.lt_irrefl _ below
  constructor
  · intro first second earlier later firstIs secondIs from_ same
    rw [origins_linked] at firstIs secondIs
    rcases getElem?_origins_concat firstIs with old | ⟨rfl, rfl⟩
    · rcases getElem?_origins_concat secondIs with old' | ⟨rfl, rfl⟩
      · exact numbered.different first second earlier later old old' from_ same
      · exact absurd same (larger first earlier old from_)
    · rcases getElem?_origins_concat secondIs with old' | ⟨rfl, rfl⟩
      · exact absurd same.symm (larger second later old' from_.symm)
      · rfl
  · intro other later laterIs
    rw [origins_linked, List.countP_append]
    by_cases same : other = output
    · subst same
      simp only [System.linked, Function.update_self, Option.some.injEq] at laterIs
      subst later
      have next : (publisher.mSignal.mNextSlotID + 1).toNat =
          publisher.mSignal.mNextSlotID.toNat + 1 := by
        rw [UInt32.toNat_add, counter]
        exact Nat.mod_eq_of_lt few'
      rw [OneToManySignal.connect, next, counter]
      simp
    · simp only [System.linked, Function.update_of_ne same] at laterIs
      rw [numbered.counted other later laterIs]
      simp [Ne.symm same]
  · intro origin member
    rw [origins_linked] at member ⊢
    rw [List.countP_append]
    rcases List.mem_append.mp member with old | new
    · exact Nat.lt_add_right _ (numbered.below origin old)
    · rw [List.mem_singleton.mp new, ← counter]
      simp
  · intro origin member
    rw [origins_linked] at member
    rcases List.mem_append.mp member with old | new
    · exact numbered.outputs origin old
    · rw [List.mem_singleton.mp new]
      exact outputUsed
  · intro origin member
    rw [origins_linked] at member
    rcases List.mem_append.mp member with old | new
    · exact numbered.inputs origin old
    · rw [List.mem_singleton.mp new]
      exact inputUsed
  · intro other beyond
    have apart : other ≠ output := by
      intro same
      subst same
      exact absurd outputUsed (Nat.not_lt.mpr beyond)
    exact (Function.update_of_ne apart _ _).trans (numbered.unusedOutputs other beyond)
  · intro other beyond
    have apart : other ≠ input := by
      intro same
      subst same
      exact absurd inputUsed (Nat.not_lt.mpr beyond)
    exact (Function.update_of_ne apart _ _).trans (numbered.unusedInputs other beyond)
  · intro number member
    simp only [System.linked, List.length_append, List.length_singleton] at member ⊢
    rcases List.mem_append.mp member with old | new
    · exact Nat.lt_succ_of_lt (numbered.handles number old)
    · rw [List.mem_singleton.mp new]
      exact Nat.lt_succ_self _

end

theorem subscribe_leads (consistent : Consistent system links) {output input : Nat}
    (allowed : Allowed system (.subscribe output input)) :
    Leads system (.subscribe output input) (links.step (.subscribe output input)) := by
  obtain ⟨outputExists, inputExists, few⟩ := allowed
  obtain ⟨publisher, publisherIs⟩ := Option.isSome_iff_exists.mp outputExists
  obtain ⟨subscriber, subscriberIs⟩ := Option.isSome_iff_exists.mp inputExists
  refine ⟨system.linked output input publisher subscriber, ?_, ?_, ?_, ?_, ?_⟩
  · simp only [step, System.subscribe, publisherIs, subscriberIs]
    rfl
  · have represents := linked_represents consistent publisherIs subscriberIs
    rw [← consistent.count] at represents
    exact represents
  · exact linked_numbered consistent publisherIs subscriberIs few
  · intro link member
    rcases List.mem_append.mp member with old | new
    · obtain ⟨outputOld, inputOld⟩ := consistent.exist link old
      constructor
      · by_cases same : link.output = output
        · rw [same]
          simp [System.linked]
        · simpa [System.linked, Function.update_of_ne same] using outputOld
      · by_cases same : link.input = input
        · rw [same]
          simp [System.linked]
        · simpa [System.linked, Function.update_of_ne same] using inputOld
    · rw [List.mem_singleton.mp new]
      simp [System.linked]
  · simp [Links.step, System.linked, consistent.count]

/-- Whatever a program may do succeeds, and opens and closes what it is meant to. -/
theorem step_leads (consistent : Consistent system links) {action : Action}
    (allowed : Allowed system action) : Leads system action (links.step action) := by
  cases action with
  | createOutput => exact createOutput_leads consistent
  | createInput => exact createInput_leads consistent
  | subscribe output input => exact subscribe_leads consistent allowed
  | close number => exact close_leads consistent allowed
  | release number => exact release_leads consistent allowed
  | destroyOutput output order => exact destroyOutput_leads consistent allowed
  | destroyInput input order => exact destroyInput_leads consistent allowed

theorem run_leads (consistent : Consistent system links) {actions : List Action}
    (permitted : Permitted system actions) :
    ∃ final, TransitionSystem.run step system actions = some final ∧
      Consistent final (actions.foldl Links.step links) := by
  induction actions generalizing system links with
  | nil => exact ⟨system, rfl, consistent⟩
  | cons action actions induction =>
      obtain ⟨allowed, rest⟩ := permitted
      obtain ⟨next, stepped, after⟩ := step_leads consistent allowed
      obtain ⟨final, ran, last⟩ := induction after (rest next stepped)
      refine ⟨final, ?_, last⟩
      rw [TransitionSystem.run, stepped, Option.bind_some]
      exact ran

end

/-- The consumers whose slots are called. -/
theorem invokeAll_targets {Index : Type} {Data T : Index → Type}
    (construct : (index : Index) → Construction (Data index) (T index))
    (slots : List (UInt32 × SlotFunction Nat)) (data : PublishedData Data) :
    (OneToManySignal.invokeAll construct slots data).map Prod.fst =
      slots.filterMap Prod.snd := by
  induction slots generalizing data with
  | nil => rfl
  | cons slot slots induction =>
      obtain ⟨slotID, function⟩ := slot
      cases function with
      | none => exact induction data
      | some target => exact congrArg (List.cons target) (induction _)

/-- However channels are connected, closed and destroyed, no assertion fails and no
destructor asks for a pointer to its own subscription.  An output channel calls the
input channels of its open subscriptions in the order of their creation, and all of
these still exist. -/
theorem channels_deliver {Index : Type} {Data T : Index → Type}
    (construct : (index : Index) → Construction (Data index) (T index))
    (data : PublishedData Data) (actions : List Action)
    (permitted : Permitted .init actions) :
    ∃ system, TransitionSystem.run step .init actions = some system ∧
      ∀ output publisher, system.outputs output = some publisher →
        (publisher.publish construct data).map Prod.fst =
            (linksFrom (Links.after actions).opened output).map Link.input ∧
          ∀ input ∈ (publisher.publish construct data).map Prod.fst,
            (system.inputs input).isSome := by
  obtain ⟨system, ran, consistent⟩ := run_leads consistent_init permitted
  refine ⟨system, ran, ?_⟩
  intro output publisher publisherIs
  have targets : (publisher.publish construct data).map Prod.fst =
      (linksFrom (Links.after actions).opened output).map Link.input := by
    unfold OutputChannel.publish OneToManySignal.publish
    rw [invokeAll_targets, consistent.represents.slots _ _ publisherIs, List.filterMap_map,
      ← List.filterMap_eq_map]
    rfl
  refine ⟨targets, ?_⟩
  intro input member
  rw [targets] at member
  obtain ⟨link, inside, rfl⟩ := List.mem_map.mp member
  exact (consistent.exist link (List.mem_of_mem_filter inside)).2

/-- A subscription whose pointer is given up, and whose subscriber is destroyed. -/
theorem permitted_destroyInput : Permitted .init
    [.createOutput, .createInput, .subscribe 0 0, .release 0, .destroyInput 0 [0]] := by
  refine ⟨trivial, ?_⟩
  intro first created
  cases created
  refine ⟨trivial, ?_⟩
  intro second created
  cases created
  refine ⟨⟨rfl, rfl, by decide⟩, ?_⟩
  intro third subscribed
  cases subscribed
  refine ⟨List.mem_singleton_self 0, ?_⟩
  intro fourth released
  cases released
  refine ⟨⟨_, rfl, .refl _⟩, ?_⟩
  intro _ _
  exact trivial

theorem channels_deliver_nobody :
    (Links.after [.createOutput, .createInput, .subscribe 0 0, .release 0]).opened =
        [⟨0, 0, 0⟩] ∧
      ∃ system, TransitionSystem.run step .init
          [.createOutput, .createInput, .subscribe 0 0, .release 0, .destroyInput 0 [0]] =
            some system ∧
        ∀ output publisher, system.outputs output = some publisher →
          (publisher.publish (fun _ : Unit => ⟨fun data : Nat => data, id⟩)
              ⟨fun _ => .lvalue, fun _ => 7⟩).map Prod.fst =
            (linksFrom (Links.after [.createOutput, .createInput, .subscribe 0 0, .release 0,
              .destroyInput 0 [0]]).opened output).map Link.input ∧
          ∀ input ∈ (publisher.publish (fun _ : Unit => ⟨fun data : Nat => data, id⟩)
              ⟨fun _ => .lvalue, fun _ => 7⟩).map Prod.fst, (system.inputs input).isSome :=
  ⟨by decide, channels_deliver _ _ _ permitted_destroyInput⟩

end PipeFabric.Channels
