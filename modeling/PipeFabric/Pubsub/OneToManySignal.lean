import Mathlib.Algebra.Group.Nat.Defs
import Mathlib.Logic.Function.Iterate
import PipeFabric.Library.Lockstep

/-!
# One-to-many signals

A `OneToManySignal` keeps its slots in the order in which they were connected and
calls each of them with the published data.  `publish` takes the data by
forwarding references and forwards it to every slot; a slot is a
`std::function<void(T...)>`, whose parameters are constructed from what it is
given.  Constructing a parameter from an rvalue moves the data out of the
published object, and the next slot is given what is left.
-/

namespace PipeFabric

/-- How a parameter of type `T` is constructed from an object of type `Data`:
its value, and what an object holds after a parameter was constructed from it as
an rvalue. -/
structure Construction (Data T : Type) where
  value : Data → T
  movedFrom : Data → Data

/-- Whether `publish` was called with an lvalue or with an rvalue. -/
inductive ValueCategory where
  | lvalue
  | rvalue
  deriving DecidableEq

/-- `SlotFunction`, a `std::function`, which may be empty. -/
abbrev SlotFunction (Callback : Type) := Option Callback

variable {Callback Index : Type} {Data T : Index → Type}

/-- The data given to `publish`, one object for each position. -/
structure PublishedData (Data : Index → Type) where
  category : Index → ValueCategory
  object : (index : Index) → Data index

namespace PublishedData

variable (construct : (index : Index) → Construction (Data index) (T index))

/-- The parameters that a slot is invoked with. -/
def parameters (data : PublishedData Data) : (index : Index) → T index :=
  fun index => (construct index).value (data.object index)

/-- The published objects after one invocation. -/
def forwarded (data : PublishedData Data) : PublishedData Data :=
  { data with
    object := fun index =>
      match data.category index with
      | .lvalue => data.object index
      | .rvalue => (construct index).movedFrom (data.object index) }

end PublishedData

/-- `OneToManySignalImpl`; a slot ID is an `unsigned int`. -/
structure OneToManySignal (Callback : Type) where
  mNextSlotID : UInt32
  mSlots : List (UInt32 × SlotFunction Callback)

/-- One invocation of a slot with its parameters. -/
abbrev Invocation (Callback : Type) (T : Index → Type) :=
  Callback × ((index : Index) → T index)

namespace OneToManySignal

/-- The constructor. -/
def init : OneToManySignal Callback := ⟨0, []⟩

/-- `connect`; the slot ID is the returned connection. -/
def connect (signal : OneToManySignal Callback) (slot : SlotFunction Callback) :
    OneToManySignal Callback × UInt32 :=
  ({ mNextSlotID := signal.mNextSlotID + 1
     mSlots := signal.mSlots ++ [(signal.mNextSlotID, slot)] }, signal.mNextSlotID)

/-- `disconnect` erases the first entry with the slot ID; without one its
assertion fails. -/
def disconnect (signal : OneToManySignal Callback) (connection : UInt32) :
    Option (OneToManySignal Callback) :=
  match signal.mSlots.find? fun entry => entry.1 = connection with
  | none => none
  | some _ =>
      some { signal with
        mSlots := signal.mSlots.eraseP fun entry => entry.1 = connection }

/-- The loop of `operator()` over the slots. -/
def invokeAll (construct : (index : Index) → Construction (Data index) (T index)) :
    List (UInt32 × SlotFunction Callback) → PublishedData Data →
      List (Invocation Callback T)
  | [], _ => []
  | (_, none) :: slots, data => invokeAll construct slots data
  | (_, some slot) :: slots, data =>
      (slot, data.parameters construct) ::
        invokeAll construct slots (data.forwarded construct)

/-- `publish`, with the invocations it makes. -/
def publish (construct : (index : Index) → Construction (Data index) (T index))
    (signal : OneToManySignal Callback) (data : PublishedData Data) :
    List (Invocation Callback T) :=
  invokeAll construct signal.mSlots data

end OneToManySignal

/-- A call on the signal; a connection is named by the number of the `connect`
call that returned it. -/
inductive SignalCall (Callback : Type) (Data : Index → Type) where
  | connect (slot : SlotFunction Callback)
  | disconnect (connection : Nat)
  | publish (data : PublishedData Data)

/-- A signal with the connections that its `connect` calls returned. -/
structure SignalClient (Callback : Type) where
  signal : OneToManySignal Callback
  connections : List UInt32

namespace SignalClient

/-- A new signal. -/
def init : SignalClient Callback := ⟨.init, []⟩

/-- A call and the invocations made in it. -/
def step (construct : (index : Index) → Construction (Data index) (T index))
    (client : SignalClient Callback) :
    SignalCall Callback Data →
      Option (SignalClient Callback × List (Invocation Callback T))
  | .connect slot =>
      let connected := client.signal.connect slot
      some (⟨connected.1, client.connections ++ [connected.2]⟩, [])
  | .disconnect connection => do
      let slotID ← client.connections[connection]?
      let signal ← client.signal.disconnect slotID
      some (⟨signal, client.connections⟩, [])
  | .publish data => some (client, client.signal.publish construct data)

end SignalClient

end PipeFabric
