import PipeFabric.Library.Codec
import PipeFabric.Core.Serialize

/-!
# The serialized format

The size, the writer and the reader of a type all follow one format, a codec put
together from the codecs of its parts: the writer fills the room it is given with
the encoding, the size is the length of the encoding, and the reader is the
decoder.
-/

namespace PipeFabric

/-- The object representation as a format of fixed size. -/
def Pod.codec {α : Type} (object : Pod α) : Codec UInt8 α :=
  Codec.fixed object.size object.bytes object.ofBytes object.length_bytes
    object.ofBytes_bytes object.bytes_of_ofBytes

theorem deserializePod_eq {α : Type} (object : Pod α) :
    deserializePod object = object.codec.decode := rfl

theorem deserializeElements_eq {α : Type}
    (element : StreamType → Option (α × StreamType)) (size : Nat) :
    deserializeElements element size = Codec.decodeTimes element size := by
  induction size with
  | zero => rfl
  | succ size induction =>
      funext range
      simp only [deserializeElements, Codec.decodeTimes, Codec.consCounted, induction]

namespace StdVector

variable {α : Type}

/-- The number of elements, then the elements. -/
def codec (element : Codec UInt8 α) : Codec UInt8 (StdVector α) where
  encode vector :=
    Pod.size_t.bytes vector.size ++ vector.elements.flatMap element.encode
  decode range := do
    let size ← Pod.size_t.codec.decode range
    let elements ← Codec.decodeTimes element.decode size.1.toNat size.2
    some (ofElements size.1 elements.1, elements.2)
  decode_encode := by
    intro vector rest
    have counted := Codec.decodeTimes_encode element vector.elements rest
      vector.size.toNat vector.toNat_size.symm
    have prefixed := Pod.size_t.codec.decode_encode vector.size
      (vector.elements.flatMap element.encode ++ rest)
    rw [List.append_assoc]
    change (Pod.size_t.codec.decode (Pod.size_t.codec.encode vector.size ++ _)).bind _ = _
    rw [prefixed, Option.bind_some, counted]
    rfl
  encode_of_decode := by
    intro range vector rest read
    simp only [Option.bind_eq_bind, Option.bind_eq_some_iff,
      Option.some.injEq, Prod.mk.injEq] at read
    obtain ⟨size, readSize, elements, readElements, rfl, rfl⟩ := read
    have front := Pod.size_t.codec.encode_of_decode _ _ _ readSize
    have following := Codec.encode_of_decodeTimes element _ _ elements.1 _ readElements
    have counted : (ofElements size.1 elements.1).size = size.1 := by
      apply UInt64.toNat_inj.mp
      rw [toNat_size]
      exact elements.1.2
    rw [counted, List.append_assoc, front, following]
    rfl

end StdVector

mutual

/-- The format of a type. -/
def SerialType.codec {α : Type} : SerialType α → Codec UInt8 α
  | .pod object => object.codec
  | .string => StdVector.codec Pod.byte.codec
  | .vector element => StdVector.codec element.codec
  | .tuple elements => elements.codec

/-- The format of a tuple is that of its elements one after the other. -/
def TupleElements.codec {α : Type} : TupleElements α → Codec UInt8 α
  | .last element => element.codec
  | .more element others => Codec.pair element.codec others.codec

end

/-- Induction over the types and the element lists of their tuples. -/
theorem SerialType.induction {holds : (α : Type) → SerialType α → Prop}
    {holdsAll : (α : Type) → TupleElements α → Prop}
    (pod : ∀ α (object : Pod α), holds α (.pod object))
    (string : holds StdString .string)
    (vector : ∀ α (element : SerialType α), holds α element →
      holds (StdVector α) (.vector element))
    (tuple : ∀ α (elements : TupleElements α), holdsAll α elements →
      holds α (.tuple elements))
    (last : ∀ α (element : SerialType α), holds α element →
      holdsAll α (.last element))
    (more : ∀ α β (element : SerialType α) (others : TupleElements β),
      holds α element → holdsAll β others → holdsAll (α × β) (.more element others)) :
    (∀ α (type : SerialType α), holds α type) ∧
      ∀ α (elements : TupleElements α), holdsAll α elements :=
  ⟨@SerialType.rec holds holdsAll (@pod) string (@vector) (@tuple) (@last) (@more),
    @TupleElements.rec holds holdsAll (@pod) string (@vector) (@tuple) (@last)
      (@more)⟩

/-! ## The reader -/

/-- Reading no characters gives the string that is returned early. -/
theorem deserialize_string :
    deserialize SerialType.string = (StdVector.codec Pod.byte.codec).decode := by
  funext range
  change (deserializePod Pod.size_t range).bind _ =
    (Pod.size_t.codec.decode range).bind _
  rw [deserializePod_eq]
  congr 1
  funext size
  by_cases zero : size.1 = 0
  · obtain ⟨size, rest⟩ := size
    cases zero
    rfl
  · rw [if_neg zero, deserializeElements_eq]
    rfl

theorem deserialize_vector {α : Type} (element : SerialType α)
    (decoder : deserialize element = element.codec.decode) :
    deserialize (SerialType.vector element) =
      (StdVector.codec element.codec).decode := by
  funext range
  change (deserializePod Pod.size_t range).bind _ =
    (Pod.size_t.codec.decode range).bind _
  rw [deserializePod_eq]
  congr 1
  funext size
  rw [deserializeElements_eq, decoder]

/-- The readers of a type and of the elements of a tuple are the decoders. -/
theorem deserializers_decode :
    (∀ α (type : SerialType α), deserialize type = type.codec.decode) ∧
      ∀ α (elements : TupleElements α),
        deserializeTuple elements = elements.codec.decode := by
  apply SerialType.induction
  case pod => exact fun _ object => deserializePod_eq object
  case string => exact deserialize_string
  case vector => exact fun _ element decoder => deserialize_vector element decoder
  case tuple => exact fun _ _ decoder => decoder
  case last => exact fun _ _ decoder => decoder
  case more =>
    intro α β element others first rest
    funext range
    simp only [deserializeTuple, first, rest]
    rfl

theorem deserialize_eq {α : Type} (type : SerialType α) :
    deserialize type = type.codec.decode :=
  deserializers_decode.1 α type

/-! ## The size -/

/-- The sizes of the elements are added to that of their number. -/
theorem foldl_add_length {α : Type} (encode : α → List UInt8) (size : α → Nat)
    (sized : ∀ value, size value = (encode value).length) (values : List α)
    (start : Nat) :
    values.foldl (fun acc cur => acc + size cur) start =
      start + (values.flatMap encode).length := by
  induction values generalizing start with
  | nil => rfl
  | cons value values induction =>
      rw [List.foldl_cons, induction, sized, List.flatMap_cons,
        List.length_append, Nat.add_assoc]

/-- The size of a type and of the elements of a tuple is the length of the
encoding. -/
theorem sizes_encode :
    (∀ α (type : SerialType α) (obj : α),
      getSize type obj = (type.codec.encode obj).length) ∧
      ∀ α (elements : TupleElements α) (obj : α),
        getTupleSize elements obj = (elements.codec.encode obj).length := by
  apply SerialType.induction
  case pod => exact fun _ object obj => (object.length_bytes obj).symm
  case string =>
    intro obj
    have characters : (obj.elements.flatMap Pod.byte.bytes).length =
        obj.elements.length := by
      simp [Pod.byte]
    change Pod.size_t.size + obj.elements.length * Pod.byte.size =
      (Pod.size_t.bytes obj.size ++ obj.elements.flatMap Pod.byte.bytes).length
    rw [List.length_append, Pod.size_t.length_bytes, characters]
    exact congrArg (Pod.size_t.size + ·) (Nat.mul_one _)
  case vector =>
    intro α element sized obj
    change obj.elements.foldl (fun acc cur => acc + getSize element cur)
      Pod.size_t.size =
      (Pod.size_t.bytes obj.size ++ obj.elements.flatMap element.codec.encode).length
    rw [List.length_append, Pod.size_t.length_bytes]
    exact foldl_add_length element.codec.encode (getSize element) sized
      obj.elements Pod.size_t.size
  case tuple => exact fun _ _ sized => sized
  case last => exact fun _ _ sized => sized
  case more =>
    intro α β element others first rest obj
    change getSize element obj.1 + getTupleSize others obj.2 =
      (element.codec.encode obj.1 ++ others.codec.encode obj.2).length
    rw [List.length_append, first, rest]

theorem getSize_eq {α : Type} (type : SerialType α) (obj : α) :
    getSize type obj = (type.codec.encode obj).length :=
  sizes_encode.1 α type obj

/-! ## The writer -/

/-- A writer that replaces the next bytes of the stream by the given ones. -/
def Fills (write : WritePosition → Option WritePosition) (bytes : List UInt8) : Prop :=
  ∀ front room, bytes.length ≤ room.length →
    write (front ++ room, front.length) =
      some (front ++ bytes ++ room.drop bytes.length, (front ++ bytes).length)

theorem writeBytes_fills (bytes : List UInt8) : Fills (writeBytes bytes) bytes := by
  intro front room enough
  have inside : front.length + bytes.length ≤ (front ++ room).length := by
    rw [List.length_append]
    omega
  have following : (front ++ room).drop (front.length + bytes.length) =
      room.drop bytes.length := by
    simp
  simp only [writeBytes]
  rw [if_pos inside, List.take_left' rfl, following, List.length_append]

theorem Fills.nothing : Fills some [] := by
  intro front room _
  simp

theorem Fills.append {first second : WritePosition → Option WritePosition}
    {bytes following : List UInt8} (fillsFirst : Fills first bytes)
    (fillsSecond : Fills second following) :
    Fills (fun res => first res >>= second) (bytes ++ following) := by
  intro front room enough
  rw [List.length_append] at enough
  have rest : following.length ≤ (room.drop bytes.length).length := by
    rw [List.length_drop]
    omega
  have begun := fillsFirst front room (by omega)
  have continued := fillsSecond (front ++ bytes) (room.drop bytes.length) rest
  rw [List.drop_drop, List.append_assoc front bytes following,
    ← List.length_append] at continued
  change (first (front ++ room, front.length)).bind second = _
  rw [begun, Option.bind_some, continued]

theorem Fills.elements {α : Type} {write : α → WritePosition → Option WritePosition}
    {encode : α → List UInt8} (fills : ∀ value, Fills (write value) (encode value))
    (values : List α) :
    Fills (fun res => values.foldlM (fun res cur => write cur res) res)
      (values.flatMap encode) := by
  induction values with
  | nil => exact Fills.nothing
  | cons value values induction => exact (fills value).append induction

/-- The writers of a type and of the elements of a tuple write the encoding. -/
theorem serializers_fill :
    (∀ α (type : SerialType α) (obj : α),
      Fills (serializer type obj) (type.codec.encode obj)) ∧
      ∀ α (elements : TupleElements α) (obj : α),
        Fills (serializeTuple elements obj) (elements.codec.encode obj) := by
  apply SerialType.induction
  case pod => exact fun _ object obj => writeBytes_fills (object.bytes obj)
  case string =>
    exact fun obj => (writeBytes_fills (Pod.size_t.bytes obj.size)).append
      (Fills.elements (fun value => writeBytes_fills (Pod.byte.bytes value))
        obj.elements)
  case vector =>
    exact fun _ element fills obj =>
      (writeBytes_fills (Pod.size_t.bytes obj.size)).append
        (Fills.elements fills obj.elements)
  case tuple => exact fun _ _ fills => fills
  case last => exact fun _ _ fills => fills
  case more =>
    exact fun _ _ element others first rest obj => (first obj.1).append (rest obj.2)

/-- Serializing appends the encoding to the stream. -/
theorem serialize_eq {α : Type} (type : SerialType α) (obj : α) (res : StreamType) :
    serialize type obj res = some (res ++ type.codec.encode obj) := by
  have sized := getSize_eq type obj
  have filled := serializers_fill.1 α type obj res
    (List.replicate (getSize type obj) 0)
    (Nat.le_of_eq (by rw [List.length_replicate, sized]))
  have complete : (List.replicate (getSize type obj) (0 : UInt8)).drop
      (type.codec.encode obj).length = [] := by
    rw [← sized]
    exact List.drop_eq_nil_of_le (Nat.le_of_eq List.length_replicate)
  rw [complete, List.append_nil] at filled
  simp only [serialize, filled, Option.bind_eq_bind, Option.bind_some]
  rw [if_pos (by rw [List.length_append, sized])]

@[simp] theorem serialize_pod {α : Type} (object : Pod α) (obj : α) (res : StreamType) :
    serialize (.pod object) obj res = some (res ++ object.bytes obj) :=
  serialize_eq (.pod object) obj res

@[simp] theorem serialize_tuple {α : Type} (elements : TupleElements α) (obj : α)
    (res : StreamType) :
    serialize (.tuple elements) obj res = some (res ++ elements.codec.encode obj) :=
  serialize_eq (.tuple elements) obj res

@[simp] theorem deserialize_pod {α : Type} (object : Pod α) (obj : α)
    (following : StreamType) :
    deserialize (.pod object) (object.bytes obj ++ following) = some (obj, following) := by
  rw [deserialize_eq]
  exact object.codec.decode_encode obj following

@[simp] theorem deserialize_tuple {α : Type} (elements : TupleElements α) (obj : α)
    (following : StreamType) :
    deserialize (.tuple elements) (elements.codec.encode obj ++ following) =
      some (obj, following) := by
  rw [deserialize_eq]
  exact elements.codec.decode_encode obj following

end PipeFabric
