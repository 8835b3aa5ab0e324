import PipeFabric.Core.Punctuation

/-!
# Tuples over a socket

A binary `ZMQSink` turns every stream element and every punctuation into one
message.  At the other end a `ZMQSource` publishes the bytes of each message as a
tuple with one attribute, which a `TupleDeserializer` turns into the original
tuple.  The two sockets are an ordered and reliable channel of messages.
-/

namespace PipeFabric

variable {α Payload : Type} {Base : TupleElements α}

namespace ZMQSink

/-- `processDataElement`: the buffer is cleared, filled and sent. -/
def processDataElement (data : Tuple Base) (_outdated : Bool) : Option StreamType :=
  data.serializeToStream []

/-- `processPunctuation`. -/
def processPunctuation (data : Punctuation Payload) : Option StreamType :=
  data.serializeToStream []

/-- The message sent for what arrives. -/
def process : StreamItem (Tuple Base) Payload → Option StreamType
  | .element data outdated => processDataElement data outdated
  | .punctuation data => processPunctuation data

end ZMQSink

namespace ZMQSource

/-- One round of `process`: the bytes of a non-empty message are passed to
`publishTuple`, which publishes them as not outdated. -/
def process (msg : StreamType) : List (StreamType × Bool) :=
  if msg.length ≠ 0 then [(msg, false)] else []

end ZMQSource

namespace TupleDeserializer

/-- `processDataElement`. -/
def processDataElement (Base : TupleElements α) (Payload : Type)
    (buf : StreamType × Bool) : Option (StreamItem (Tuple Base) Payload) := do
  let tp ← Tuple.deserializeFromStream Base buf.1
  some (.element tp buf.2)

end TupleDeserializer

/-- What the receiving pipeline publishes for what arrives at the sink. -/
def zmqPipeline :
    List (StreamItem (Tuple Base) Payload) →
      Option (List (StreamItem (Tuple Base) Payload))
  | [] => some []
  | item :: items => do
      let msg ← ZMQSink.process item
      let published ← (ZMQSource.process msg).mapM
        (TupleDeserializer.processDataElement Base Payload)
      let later ← zmqPipeline items
      some (published ++ later)

/-- A tuple that is sent as not outdated arrives as it was. -/
theorem received_element (data : Tuple Base) :
    (ZMQSource.process data.bytes).mapM
      (TupleDeserializer.processDataElement Base Payload) =
      some [.element data false] := by
  have nonempty : data.bytes.length ≠ 0 := by
    simp [Tuple.bytes, Pod.byte]
  have read := data.deserializeFromStream_bytes []
  rw [List.append_nil] at read
  simp [ZMQSource.process, nonempty, TupleDeserializer.processDataElement, read]

/-- Whatever a message holds, it is published as a tuple that is not outdated. -/
theorem received_plain {msg : StreamType}
    {published : List (StreamItem (Tuple Base) Payload)}
    (received : (ZMQSource.process msg).mapM
      (TupleDeserializer.processDataElement Base Payload) = some published)
    {item : StreamItem (Tuple Base) Payload} (member : item ∈ published) :
    ∃ data, item = .element data false := by
  by_cases nonempty : msg.length ≠ 0
  · simp only [ZMQSource.process, if_pos nonempty, List.mapM_cons, List.mapM_nil,
      TupleDeserializer.processDataElement, Option.pure_def, Option.bind_eq_bind,
      Option.bind_eq_some_iff, Option.some.injEq] at received
    obtain ⟨first, ⟨data, _, rfl⟩, rest, rfl, rfl⟩ := received
    rw [List.mem_singleton] at member
    exact ⟨data, member⟩
  · simp only [ZMQSource.process, if_neg nonempty, List.mapM_nil, Option.pure_def,
      Option.some.injEq] at received
    subst received
    cases member

theorem published_plain {items published : List (StreamItem (Tuple Base) Payload)}
    (run : zmqPipeline items = some published) {item : StreamItem (Tuple Base) Payload}
    (member : item ∈ published) : ∃ data, item = .element data false := by
  induction items generalizing published with
  | nil =>
      cases run
      cases member
  | cons head items induction =>
      simp only [zmqPipeline, Option.bind_eq_bind, Option.bind_eq_some_iff,
        Option.some.injEq] at run
      obtain ⟨msg, _, first, received, later, rest, rfl⟩ := run
      rcases List.mem_append.mp member with here | there
      · exact received_plain received here
      · exact induction rest there

/-- The pipeline publishes what was sent if and only if all of it is tuples that
are not outdated: the outdated flag is not part of a message, and a punctuation
arrives as the bytes of a tuple. -/
theorem zmqPipeline_transparent (items : List (StreamItem (Tuple Base) Payload)) :
    zmqPipeline items = some items ↔
      ∀ item ∈ items, ∃ data, item = .element data false := by
  constructor
  · intro transparent item member
    exact published_plain transparent member
  · intro plain
    induction items with
    | nil => rfl
    | cons item items induction =>
        obtain ⟨data, rfl⟩ := plain item List.mem_cons_self
        have later := induction fun item member =>
          plain item (List.mem_cons_of_mem _ member)
        have sent :
            ZMQSink.process (.element data false : StreamItem (Tuple Base) Payload) =
              some data.bytes :=
          data.serializeToStream_eq []
        simp only [zmqPipeline, sent, received_element, later, Option.bind_eq_bind,
          Option.bind_some, List.singleton_append]

/-- The begin of transaction 7 and a retraction, over tuples with one byte. -/
def beginAndRetraction : List (StreamItem (Tuple (.last (.pod Pod.byte))) Nat) :=
  [.punctuation ⟨.TxBegin, some 7, 0⟩,
    .element ⟨(42 : UInt8), ⟨List.replicate 8 0, rfl⟩⟩ true]

/-- The begin is published as a tuple, the retraction as an insertion. -/
theorem zmqPipeline_not_transparent :
    zmqPipeline beginAndRetraction =
      some [.element ⟨(0 : UInt8), ⟨[0, 0, 0, 0, 0, 0, 0, 16], rfl⟩⟩ false,
        .element ⟨(42 : UInt8), ⟨List.replicate 8 0, rfl⟩⟩ false] ∧
    zmqPipeline beginAndRetraction ≠ some beginAndRetraction := by
  constructor
  · rfl
  · intro transparent
    obtain ⟨data, impossible⟩ := published_plain transparent List.mem_cons_self
    cases impossible

end PipeFabric
