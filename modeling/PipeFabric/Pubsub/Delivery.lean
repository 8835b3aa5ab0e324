import PipeFabric.Pubsub.OneToManySignal

/-!
# Delivery to the subscribers of a signal

The reference keeps the open connections under the numbers of their `connect`
calls and hands every subscriber the published values.  The signal differs from
it in two points: its slot IDs wrap around, so that a connection can be closed in
the place of another one, and an rvalue is moved into the first slot.
-/

namespace PipeFabric

variable {Callback Index : Type} {Data T : Index → Type}

/-- The open connections, numbered by their `connect` calls. -/
structure Subscriptions (Callback : Type) where
  connected : List (Nat × SlotFunction Callback)
  count : Nat

namespace Subscriptions

/-- No connections yet. -/
def init : Subscriptions Callback := ⟨[], 0⟩

/-- Every call on the signal and what it delivers; only an open connection may be
closed, and an empty function cannot be invoked. -/
def step (construct : (index : Index) → Construction (Data index) (T index))
    (subscriptions : Subscriptions Callback) :
    SignalCall Callback Data →
      Option (Subscriptions Callback × List (Invocation Callback T))
  | .connect slot =>
      some (⟨subscriptions.connected ++ [(subscriptions.count, slot)],
        subscriptions.count + 1⟩, [])
  | .disconnect connection =>
      match subscriptions.connected.find? fun entry => entry.1 = connection with
      | none => none
      | some _ =>
          some (⟨subscriptions.connected.eraseP fun entry => entry.1 = connection,
            subscriptions.count⟩, [])
  | .publish data =>
      some (subscriptions, subscriptions.connected.filterMap fun entry =>
        entry.2.map fun slot => (slot, data.parameters construct))

end Subscriptions

/-- The slot ID of a connection: the counter is an `unsigned int`. -/
def slotID (connection : Nat) : UInt32 := UInt32.ofNat connection

theorem slotID_succ (connection : Nat) : slotID connection + 1 = slotID (connection + 1) := by
  apply UInt32.toNat_inj.mp
  simp [slotID]

/-- The slot ID names the connection: no other open connection that is found
first has the same one. -/
def Distinguished (subscriptions : Subscriptions Callback) :
    SignalCall Callback Data → Prop
  | .disconnect connection =>
      (subscriptions.connected.find? fun entry => slotID entry.1 = slotID connection) =
        subscriptions.connected.find? fun entry => entry.1 = connection
  | _ => True

/-- What is left for each of the subscribers after the moves before it converts to
the same parameters. -/
def SurvivesMoves (construct : (index : Index) → Construction (Data index) (T index))
    (subscriptions : Subscriptions Callback) : SignalCall Callback Data → Prop
  | .publish data =>
      ∀ moves < subscriptions.connected.countP fun entry => entry.2.isSome,
        ((PublishedData.forwarded construct)^[moves] data).parameters construct =
          data.parameters construct
  | _ => True

/-- The slots of the signal are the open connections under their slot IDs. -/
structure Subscribed (client : SignalClient Callback)
    (subscriptions : Subscriptions Callback) : Prop where
  slots : client.signal.mSlots =
    subscriptions.connected.map fun entry => (slotID entry.1, entry.2)
  next : client.signal.mNextSlotID = slotID subscriptions.count
  connections : client.connections = (List.range subscriptions.count).map slotID
  numbered : ∀ entry ∈ subscriptions.connected, entry.1 < subscriptions.count

theorem subscribed_init : Subscribed (.init : SignalClient Callback) .init :=
  ⟨rfl, rfl, rfl, fun _ member => by cases member⟩

/-! ## Closing a connection -/

/-- Two tests that first hold for the same element erase the same element. -/
theorem eraseP_eq_of_find?_eq {α : Type} {wide narrow : α → Bool} {entries : List α}
    (wider : ∀ entry, narrow entry = true → wide entry = true)
    (same : entries.find? wide = entries.find? narrow) :
    entries.eraseP wide = entries.eraseP narrow := by
  induction entries with
  | nil => rfl
  | cons entry entries induction =>
      cases first : wide entry with
      | false =>
          have second : narrow entry = false := by
            rw [← Bool.not_eq_true]
            intro holds
            rw [wider entry holds] at first
            cases first
          rw [List.find?_cons_of_neg (by simp [first]),
            List.find?_cons_of_neg (by simp [second])] at same
          rw [List.eraseP_cons_of_neg (by simp [first]),
            List.eraseP_cons_of_neg (by simp [second]), induction same]
      | true =>
          rw [List.find?_cons_of_pos first] at same
          have second : narrow entry = true := List.find?_some same.symm
          rw [List.eraseP_cons_of_pos first, List.eraseP_cons_of_pos second]

theorem disconnect_step {client : SignalClient Callback}
    {subscriptions : Subscriptions Callback} {connection : Nat}
    (construct : (index : Index) → Construction (Data index) (T index))
    {after : Subscriptions Callback × List (Invocation Callback T)}
    (subscribed : Subscribed client subscriptions)
    (legal : subscriptions.step construct (.disconnect connection) = some after)
    (distinguished : Distinguished subscriptions
      (.disconnect connection : SignalCall Callback Data)) :
    ∃ next, client.step construct (.disconnect connection) = some next ∧
      next.2 = after.2 ∧ Subscribed next.1 after.1 := by
  simp only [Subscriptions.step] at legal
  cases found : subscriptions.connected.find? fun entry => entry.1 = connection with
  | none =>
      rw [found] at legal
      cases legal
  | some entry =>
      rw [found] at legal
      cases legal
      have isOpen : entry ∈ subscriptions.connected := List.mem_of_find?_eq_some found
      have number : entry.1 = connection := by
        simpa using List.find?_some found
      have earlier : connection < subscriptions.count := by
        rw [← number]
        exact subscribed.numbered entry isOpen
      have handle : client.connections[connection]? = some (slotID connection) := by
        rw [subscribed.connections, List.getElem?_map, List.getElem?_range earlier]
        rfl
      have located : client.signal.mSlots.find? (fun entry => entry.1 = slotID connection) =
          some (slotID entry.1, entry.2) := by
        rw [subscribed.slots, List.find?_map]
        change (subscriptions.connected.find? fun entry =>
          slotID entry.1 = slotID connection).map _ = _
        rw [distinguished, found]
        rfl
      have erased : client.signal.mSlots.eraseP (fun entry => entry.1 = slotID connection) =
          (subscriptions.connected.eraseP fun entry => entry.1 = connection).map
            fun entry => (slotID entry.1, entry.2) := by
        rw [subscribed.slots, List.eraseP_map]
        congr 1
        apply eraseP_eq_of_find?_eq _ distinguished
        intro entry same
        simp only [decide_eq_true_eq] at same
        simp [same]
      have closed : client.step construct (.disconnect connection) =
          some (⟨{ client.signal with
            mSlots := client.signal.mSlots.eraseP fun entry =>
              entry.1 = slotID connection }, client.connections⟩, []) := by
        simp only [SignalClient.step, handle, OneToManySignal.disconnect, located,
          Option.bind_eq_bind, Option.bind_some]
      refine ⟨_, closed, rfl, ?_⟩
      exact
        { slots := erased
          next := subscribed.next
          connections := subscribed.connections
          numbered := fun entry member =>
            subscribed.numbered entry (List.mem_of_mem_eraseP member) }

/-! ## Publishing -/

/-- The slots receive given parameters if and only if these survive the moves
into the slots before. -/
theorem invokeAll_eq_iff
    (construct : (index : Index) → Construction (Data index) (T index))
    (connected : List (Nat × SlotFunction Callback)) (data : PublishedData Data)
    (parameters : (index : Index) → T index) :
    OneToManySignal.invokeAll construct
        (connected.map fun entry => (slotID entry.1, entry.2)) data =
      (connected.filterMap fun entry => entry.2.map fun slot => (slot, parameters)) ↔
      ∀ moves < connected.countP fun entry => entry.2.isSome,
        ((PublishedData.forwarded construct)^[moves] data).parameters construct =
          parameters := by
  induction connected generalizing data with
  | nil => simp [OneToManySignal.invokeAll]
  | cons entry connected induction =>
      obtain ⟨connection, slot⟩ := entry
      cases slot with
      | none => simpa [OneToManySignal.invokeAll] using induction data
      | some slot =>
          have rest := induction (data.forwarded construct)
          simp only [List.map_cons, OneToManySignal.invokeAll, List.filterMap_cons,
            Option.map_some, List.cons.injEq, Prod.mk.injEq, true_and, rest,
            List.countP_cons, Option.isSome_some, if_true]
          constructor
          · intro both moves inside
            obtain ⟨first, others⟩ := both
            cases moves with
            | zero => exact first
            | succ moves =>
                rw [Function.iterate_succ_apply]
                exact others moves (by omega)
          · intro every
            refine ⟨every 0 (by omega), ?_⟩
            intro moves inside
            have later := every (moves + 1) (by omega)
            rwa [Function.iterate_succ_apply] at later

/-- Lvalues are copied into every slot. -/
theorem survivesMoves_lvalues
    (construct : (index : Index) → Construction (Data index) (T index))
    (subscriptions : Subscriptions Callback) (data : PublishedData Data)
    (lvalues : ∀ index, data.category index = .lvalue) :
    SurvivesMoves construct subscriptions (.publish data) := by
  intro moves _
  have unchanged : data.forwarded construct = data := by
    unfold PublishedData.forwarded
    congr 1
    funext index
    rw [lvalues index]
  rw [Function.iterate_fixed unchanged]

/-! ## All calls -/

/-- While slot IDs name connections, every publish call invokes each connected
slot exactly once, in connection order and with the published values, if and only
if at every publish call these values survive the moves into the slots before. -/
theorem publish_delivers
    (construct : (index : Index) → Construction (Data index) (T index))
    (calls : List (SignalCall Callback Data))
    (distinguished : Lockstep.Along (Subscriptions.step construct) Distinguished .init
      calls) :
    Lockstep.Agree (SignalClient.step construct) (Subscriptions.step construct)
        (fun next after => next.2 = after.2) .init .init calls ↔
      Lockstep.Along (Subscriptions.step construct) (SurvivesMoves construct) .init
        calls := by
  apply Lockstep.agree_iff_of_assumed Distinguished Subscribed ?_ ?_ calls subscribed_init
    distinguished
  · intro client subscriptions call after subscribed legal named survives
    cases call with
    | connect slot =>
        cases legal
        refine ⟨_, rfl, rfl, ?_⟩
        exact
          { slots := by
              simp [OneToManySignal.connect, subscribed.slots, subscribed.next]
            next := by
              change client.signal.mNextSlotID + 1 = _
              rw [subscribed.next, slotID_succ]
            connections := by
              simp [OneToManySignal.connect, subscribed.connections, subscribed.next,
                List.range_succ]
            numbered := by
              intro entry member
              change entry.1 < subscriptions.count + 1
              rcases List.mem_append.mp member with earlier | new
              · have before := subscribed.numbered entry earlier
                omega
              · rw [List.mem_singleton] at new
                subst new
                exact Nat.lt_succ_self _ }
    | disconnect connection => exact disconnect_step construct subscribed legal named
    | publish data =>
        cases legal
        refine ⟨(client, _), rfl, ?_, subscribed⟩
        simp only [OneToManySignal.publish, subscribed.slots]
        exact (invokeAll_eq_iff construct _ data _).mpr survives
  · intro client subscriptions call after next subscribed legal named stepped alike
    cases call with
    | connect slot => trivial
    | disconnect connection => trivial
    | publish data =>
        cases legal
        cases stepped
        simp only [OneToManySignal.publish, subscribed.slots] at alike
        exact (invokeAll_eq_iff construct _ data _).mp alike

/-- A string is empty after it was moved from. -/
def constructString : Unit → Construction String String :=
  fun _ => ⟨id, fun _ => ""⟩

/-- A string published as an rvalue reaches the first of two slots only. -/
theorem publish_not_delivered :
    ¬ Lockstep.Agree (SignalClient.step constructString)
      (Subscriptions.step constructString) (fun next after => next.2 = after.2)
      .init .init
      [.connect (some 1), .connect (some 2),
        .publish ⟨fun _ => .rvalue, fun _ => "tuple"⟩] := by
  intro agree
  obtain ⟨_, connected, _, agree⟩ := agree _ rfl
  cases connected
  obtain ⟨_, connected, _, agree⟩ := agree _ rfl
  cases connected
  obtain ⟨_, published, alike, _⟩ := agree _ rfl
  cases published
  have second := congrArg (List.map fun invocation => invocation.2 ()) alike
  revert second
  decide

/-- Two slots are connected and the first of them is closed again. -/
theorem publish_delivers_afterDisconnect :
    Lockstep.Agree (SignalClient.step constructString)
        (Subscriptions.step constructString) (fun next after => next.2 = after.2)
        .init .init
        [.connect (some 1), .connect (some 2), .disconnect 0,
          .publish ⟨fun _ => .rvalue, fun _ => "tuple"⟩] ↔
      Lockstep.Along (Subscriptions.step constructString)
        (SurvivesMoves constructString) .init
        [.connect (some 1), .connect (some 2), .disconnect 0,
          .publish ⟨fun _ => .rvalue, fun _ => "tuple"⟩] := by
  apply publish_delivers
  intro _ legal
  cases legal
  refine ⟨trivial, ?_⟩
  intro _ legal
  cases legal
  refine ⟨trivial, ?_⟩
  intro _ legal
  cases legal
  exact ⟨rfl, fun _ _ => ⟨trivial, trivial⟩⟩

end PipeFabric
