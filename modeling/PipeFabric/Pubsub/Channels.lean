import Mathlib.Data.List.Perm.Basic
import Mathlib.Logic.Function.Basic
import PipeFabric.Library.TransitionSystem
import PipeFabric.Pubsub.OneToManySignal

/-!
# Channels and their subscriptions

A subscription is owned by the sets of both of its channels and by whoever keeps the
pointer that `subscribe` returned; it refers to the channels by weak pointers only.  A
slot, on the other hand, calls into the consumer of an input channel by a plain
pointer.  Channels and subscriptions are named by numbers that are never used again.
`none` stands for an assertion that fails, or for `shared_from_this` of a subscription
that no pointer owns.
-/

namespace PipeFabric.Channels

/-- `OutputChannel`.  A slot is named by the input channel whose consumer it calls. -/
structure OutputChannel where
  mSignal : OneToManySignal Nat
  mSubscriptions : List Nat

/-- `InputChannel`. -/
structure InputChannel where
  mSubscriptions : List Nat
  deriving DecidableEq

/-- `Subscription`, with the channels that its weak pointers refer to. -/
structure Subscription where
  mPublisher : Nat
  mSubscriber : Nat
  mConnection : UInt32
  mIsConnected : Bool
  deriving DecidableEq

/-- All channels and subscriptions.  A channel that was destroyed is `none`; a
subscription keeps its entry.  `handles` are the subscriptions that a pointer outside
the channels owns. -/
structure System where
  outputs : Nat → Option OutputChannel
  inputs : Nat → Option InputChannel
  numOutputs : Nat
  numInputs : Nat
  subscriptions : List Subscription
  handles : List Nat

/-- No channels yet. -/
def System.init : System := ⟨fun _ => none, fun _ => none, 0, 0, [], []⟩

/-- A pointer to the subscription is in the set of a channel or outside of them. -/
def System.owned (system : System) (number : Nat) : Prop :=
  number ∈ system.handles ∨
    (∃ subscription ∈ system.subscriptions[number]?,
      (∃ publisher ∈ system.outputs subscription.mPublisher,
        number ∈ publisher.mSubscriptions) ∨
      ∃ subscriber ∈ system.inputs subscription.mSubscriber,
        number ∈ subscriber.mSubscriptions)

instance (system : System) (number : Nat) : Decidable (system.owned number) :=
  inferInstanceAs (Decidable (_ ∨ (∃ subscription ∈ system.subscriptions[number]?,
    (∃ publisher ∈ system.outputs subscription.mPublisher,
      number ∈ publisher.mSubscriptions) ∨
    ∃ subscriber ∈ system.inputs subscription.mSubscriber,
      number ∈ subscriber.mSubscriptions)))

/-- `OutputChannel::publish`. -/
def OutputChannel.publish {Index : Type} {Data T : Index → Type}
    (construct : (index : Index) → Construction (Data index) (T index))
    (channel : OutputChannel) (data : PublishedData Data) : List (Invocation Nat T) :=
  channel.mSignal.publish construct data

/-- `OutputChannel::subscribe`. -/
def System.subscribe (system : System) (output input : Nat) : Option System :=
  match system.outputs output, system.inputs input with
  | some publisher, some subscriber =>
      let number := system.subscriptions.length
      let connected := publisher.mSignal.connect (some input)
      some { system with
        outputs := Function.update system.outputs output
          (some ⟨connected.1, publisher.mSubscriptions.insert number⟩)
        inputs := Function.update system.inputs input
          (some ⟨subscriber.mSubscriptions.insert number⟩)
        subscriptions := system.subscriptions ++ [⟨output, input, connected.2, true⟩]
        handles := system.handles ++ [number] }
  | _, _ => none

/-- The publisher, if it can be locked, disconnects the slot and removes the
subscription, whose shared pointer it asks for. -/
def System.leavePublisher (system : System) (number : Nat) (subscription : Subscription)
    (shared : Bool) : Option System :=
  match system.outputs subscription.mPublisher with
  | none => some system
  | some publisher =>
      match publisher.mSignal.disconnect subscription.mConnection with
      | none => none
      | some mSignal =>
          if shared then
            some { system with
              outputs := Function.update system.outputs subscription.mPublisher
                (some ⟨mSignal, publisher.mSubscriptions.erase number⟩) }
          else none

/-- The subscriber, if it can be locked, removes the subscription. -/
def System.leaveSubscriber (system : System) (number : Nat) (subscription : Subscription)
    (shared : Bool) : Option System :=
  match system.inputs subscription.mSubscriber with
  | none => some system
  | some subscriber =>
      if shared then
        some { system with
          inputs := Function.update system.inputs subscription.mSubscriber
            (some ⟨subscriber.mSubscriptions.erase number⟩) }
      else none

/-- `Subscription::closeSubscription`; `shared` tells whether a pointer owns the
subscription. -/
def System.closeSubscription (system : System) (number : Nat) (shared : Bool) :
    Option System :=
  match system.subscriptions[number]? with
  | none => none
  | some subscription =>
      if subscription.mIsConnected then
        (system.leavePublisher number subscription shared).bind fun left =>
          (left.leaveSubscriber number subscription shared).map fun closed =>
            { closed with
              subscriptions :=
                closed.subscriptions.set number { subscription with mIsConnected := false } }
      else some system

/-- A pointer to the subscription is gone; with the last one its destructor runs. -/
def System.released (system : System) (number : Nat) : Option System :=
  if system.owned number then some system else system.closeSubscription number false

/-- The loop of `~Channel`, which meets the subscriptions in the order of their
addresses.  The local pointer of the loop owns the subscription while it is closed. -/
def System.destroySubscriptions : List Nat → System → Option System
  | [], system => some system
  | number :: rest, system =>
      (system.closeSubscription number true).bind fun closed =>
        (closed.released number).bind fun left => destroySubscriptions rest left

/-- What a program does with channels and subscriptions. -/
inductive Action where
  | createOutput
  | createInput
  | subscribe (output input : Nat)
  | close (number : Nat)
  | release (number : Nat)
  | destroyOutput (output : Nat) (order : List Nat)
  | destroyInput (input : Nat) (order : List Nat)
  deriving DecidableEq

/-- One of these.  Weak pointers to a channel have expired when its destructor
begins. -/
def step (system : System) : Action → Option System
  | .createOutput =>
      some { system with
        outputs := Function.update system.outputs system.numOutputs (some ⟨.init, []⟩)
        numOutputs := system.numOutputs + 1 }
  | .createInput =>
      some { system with
        inputs := Function.update system.inputs system.numInputs (some ⟨[]⟩)
        numInputs := system.numInputs + 1 }
  | .subscribe output input => system.subscribe output input
  | .close number => system.closeSubscription number true
  | .release number =>
      { system with handles := system.handles.erase number }.released number
  | .destroyOutput output order =>
      { system with outputs := Function.update system.outputs output none }.destroySubscriptions
        order
  | .destroyInput input order =>
      { system with inputs := Function.update system.inputs input none }.destroySubscriptions
        order

/-- What a program may do: it connects and destroys channels that exist and closes
subscriptions it has a pointer to, and an `unsigned int` is enough for the slots of a
channel. -/
def Allowed (system : System) : Action → Prop
  | .createOutput => True
  | .createInput => True
  | .subscribe output input =>
      (system.outputs output).isSome ∧ (system.inputs input).isSome ∧
        (system.subscriptions.countP fun other => other.mPublisher = output) + 1 < 2 ^ 32
  | .close number => number ∈ system.handles
  | .release number => number ∈ system.handles
  | .destroyOutput output order =>
      ∃ publisher, system.outputs output = some publisher ∧
        order.Perm publisher.mSubscriptions
  | .destroyInput input order =>
      ∃ subscriber, system.inputs input = some subscriber ∧
        order.Perm subscriber.mSubscriptions

/-- A program that only does what it may. -/
def Permitted : System → List Action → Prop
  | _, [] => True
  | system, action :: actions =>
      Allowed system action ∧
        ∀ next, step system action = some next → Permitted next actions

/-! ## What the channels are for -/

/-- A subscription that is open, with the channels it connects. -/
structure Link where
  number : Nat
  output : Nat
  input : Nat
  deriving DecidableEq

/-- The open subscriptions in the order of their creation. -/
structure Links where
  opened : List Link
  count : Nat
  deriving DecidableEq

/-- What an action does to them. -/
def Links.step (links : Links) : Action → Links
  | .subscribe output input =>
      ⟨links.opened ++ [⟨links.count, output, input⟩], links.count + 1⟩
  | .close number => { links with opened := links.opened.filter (·.number ≠ number) }
  | .destroyOutput output _ => { links with opened := links.opened.filter (·.output ≠ output) }
  | .destroyInput input _ => { links with opened := links.opened.filter (·.input ≠ input) }
  | _ => links

/-- The subscriptions that a program leaves open. -/
def Links.after (actions : List Action) : Links := actions.foldl Links.step ⟨[], 0⟩

/-- The links of an output channel. -/
def linksFrom (links : List Link) (output : Nat) : List Link :=
  links.filter fun link => link.output = output

/-- The links of an input channel. -/
def linksTo (links : List Link) (input : Nat) : List Link :=
  links.filter fun link => link.input = input

end PipeFabric.Channels
