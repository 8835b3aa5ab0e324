import PipeFabric.Library.ByteOrder

/-!
# The serialization templates

`core/serialize.hpp` has three families of templates that recurse over a type:
the number of bytes a value takes, the writer and the reader.  A type that they
can be instantiated at is described by a `SerialType`, whose constructors are the
template specialisations, and each family is one recursive function on it.
-/

namespace PipeFabric

/-- `StreamType`, a `std::vector<uint8_t>`. -/
abbrev StreamType := List UInt8

/-- A fixed-size POD type with the object representation of its values.  Bytes
that represent no value, such as a `bool` other than 0 and 1, may not be read. -/
structure Pod (α : Type) where
  size : Nat
  bytes : α → List UInt8
  ofBytes : List UInt8 → Option α
  length_bytes : ∀ value, (bytes value).length = size
  ofBytes_bytes : ∀ value, ofBytes (bytes value) = some value
  bytes_of_ofBytes : ∀ object value, ofBytes object = some value → bytes value = object

/-- `uint8_t` and `char`. -/
def Pod.byte : Pod UInt8 where
  size := 1
  bytes value := [value]
  ofBytes
    | [value] => some value
    | _ => none
  length_bytes := fun _ => rfl
  ofBytes_bytes := fun _ => rfl
  bytes_of_ofBytes := by
    intro object value read
    match object, read with
    | [byte], read => cases read; rfl

/-- `size_t`, which is stored with its least significant byte first. -/
def Pod.size_t : Pod UInt64 where
  size := 8
  bytes value := ByteOrder.littleEndian 8 value.toNat
  ofBytes object :=
    if object.length = 8 then some (UInt64.ofNat (ByteOrder.ofLittleEndian object)) else none
  length_bytes := by simp
  ofBytes_bytes := by
    intro value
    have small : value.toNat < 256 ^ 8 := value.toNat_lt
    rw [if_pos (ByteOrder.length_littleEndian 8 value.toNat),
      ByteOrder.ofLittleEndian_littleEndian, Nat.mod_eq_of_lt small, UInt64.ofNat_toNat]
  bytes_of_ofBytes := by
    intro object value read
    by_cases eight : object.length = 8
    · rw [if_pos eight] at read
      cases read
      have small := ByteOrder.ofLittleEndian_lt object
      rw [eight] at small
      rw [UInt64.toNat_ofNat_of_lt' small, ← eight,
        ByteOrder.littleEndian_ofLittleEndian]
    · rw [if_neg eight] at read
      cases read

/-- `std::vector<T>`: the number of elements is a `size_t`. -/
structure StdVector (α : Type) where
  elements : List α
  fits : elements.length < UInt64.size

/-- `std::string`: its `char`s. -/
abbrev StdString := StdVector UInt8

namespace StdVector

variable {α : Type}

/-- `size()`, and `length()` of a string. -/
def size (vector : StdVector α) : UInt64 := UInt64.ofNat vector.elements.length

@[simp] theorem toNat_size (vector : StdVector α) :
    vector.size.toNat = vector.elements.length :=
  UInt64.toNat_ofNat_of_lt' vector.fits

theorem nil_fits : ([] : List α).length < UInt64.size := by simp [UInt64.size]

/-- The string and the vector without elements. -/
def empty : StdVector α := ⟨[], nil_fits⟩

/-- `size` elements that were read one after the other. -/
def ofElements (size : UInt64) (elements : {xs : List α // xs.length = size.toNat}) :
    StdVector α :=
  ⟨elements.1, by rw [elements.2]; exact size.toNat_lt⟩

end StdVector

mutual

/-- How the templates are instantiated at a type. -/
inductive SerialType : Type → Type 1 where
  | pod {α : Type} (object : Pod α) : SerialType α
  | string : SerialType StdString
  | vector {α : Type} (element : SerialType α) : SerialType (StdVector α)
  | tuple {α : Type} (elements : TupleElements α) : SerialType α

/-- The element types of a non-empty `std::tuple`. -/
inductive TupleElements : Type → Type 1 where
  | last {α : Type} (element : SerialType α) : TupleElements α
  | more {α β : Type} (element : SerialType α) (others : TupleElements β) :
      TupleElements (α × β)

end

/-! ## Size -/

mutual

/-- `get_size`. -/
def getSize {α : Type} : SerialType α → α → Nat
  | .pod object, _ => object.size
  | .string, obj => Pod.size_t.size + obj.elements.length * Pod.byte.size
  | .vector element, obj =>
      obj.elements.foldl (fun acc cur => acc + getSize element cur) Pod.size_t.size
  | .tuple elements, obj => getTupleSize elements obj

/-- `get_tuple_size`. -/
def getTupleSize {α : Type} : TupleElements α → α → Nat
  | .last element, obj => getSize element obj
  | .more element others, obj => getSize element obj.1 + getTupleSize others obj.2

end

/-! ## Writing -/

/-- A stream and the iterator at which the next byte is written. -/
abbrev WritePosition := StreamType × Nat

/-- `std::copy` of the bytes to the iterator, which is then advanced; writing
past the end of the stream is undefined. -/
def writeBytes (bytes : List UInt8) (target : WritePosition) : Option WritePosition :=
  if target.2 + bytes.length ≤ target.1.length then
    some (target.1.take target.2 ++ bytes ++ target.1.drop (target.2 + bytes.length),
      target.2 + bytes.length)
  else none

mutual

/-- `detail::serializer`. -/
def serializer {α : Type} :
    SerialType α → α → WritePosition → Option WritePosition
  | .pod object, obj, res => writeBytes (object.bytes obj) res
  | .string, obj, res => do
      let res ← writeBytes (Pod.size_t.bytes obj.size) res
      obj.elements.foldlM (fun res cur => writeBytes (Pod.byte.bytes cur) res) res
  | .vector element, obj, res => do
      let res ← writeBytes (Pod.size_t.bytes obj.size) res
      obj.elements.foldlM (fun res cur => serializer element cur res) res
  | .tuple elements, obj, res => serializeTuple elements obj res

/-- `detail::serialize_tuple`. -/
def serializeTuple {α : Type} :
    TupleElements α → α → WritePosition → Option WritePosition
  | .last element, obj, res => serializer element obj res
  | .more element others, obj, res => do
      let res ← serializer element obj.1 res
      serializeTuple others obj.2 res

end

/-- `serialize`: makes room at the end of the stream and fills it; the result is
`none` when the closing assertion fails. -/
def serialize {α : Type} (type : SerialType α) (obj : α) (res : StreamType) :
    Option StreamType := do
  let offset := res.length
  let size := getSize type obj
  let res := res ++ List.replicate size 0
  let filled ← serializer type obj (res, offset)
  if filled.2 = offset + size then some filled.1 else none

/-! ## Reading

The iterators `begin` and `end` are the bytes between them; advancing `begin`
takes bytes off the front. -/

/-- `deserialize_helper` of a POD type, with its assertion. -/
def deserializePod {α : Type} (object : Pod α) (range : StreamType) :
    Option (α × StreamType) :=
  if object.size ≤ range.length then
    (object.ofBytes (range.take object.size)).map fun value =>
      (value, range.drop object.size)
  else none

/-- The loop that reads `size` elements. -/
def deserializeElements {α : Type} (element : StreamType → Option (α × StreamType)) :
    (size : Nat) → StreamType → Option ({xs : List α // xs.length = size} × StreamType)
  | 0, range => some (⟨[], rfl⟩, range)
  | size + 1, range => do
      let first ← element range
      let others ← deserializeElements element size first.2
      some (⟨first.1 :: others.1.1, by simp [others.1.2]⟩, others.2)

mutual

/-- `deserialize`; `none` when an assertion fails or bytes are read that
represent no value. -/
def deserialize {α : Type} : SerialType α → StreamType → Option (α × StreamType)
  | .pod object, range => deserializePod object range
  | .string, range => do
      let size ← deserializePod Pod.size_t range
      if size.1 = 0 then some (StdVector.empty, size.2)
      else do
        let str ← deserializeElements (deserializePod Pod.byte) size.1.toNat size.2
        some (StdVector.ofElements size.1 str.1, str.2)
  | .vector element, range => do
      let size ← deserializePod Pod.size_t range
      let vect ← deserializeElements (deserialize element) size.1.toNat size.2
      some (StdVector.ofElements size.1 vect.1, vect.2)
  | .tuple elements, range => deserializeTuple elements range

/-- `detail::deserialize_tuple`. -/
def deserializeTuple {α : Type} : TupleElements α → StreamType → Option (α × StreamType)
  | .last element, range => deserialize element range
  | .more element others, range => do
      let first ← deserialize element range
      let rest ← deserializeTuple others first.2
      some ((first.1, rest.1), rest.2)

end

end PipeFabric
