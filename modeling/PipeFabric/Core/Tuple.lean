import PipeFabric.Core.Format

/-!
# Tuples on a byte stream

A `Tuple` is a `std::tuple` of attributes with a bit set that marks the null
attributes.  It is serialized behind a tag that tells tuples and punctuations
apart.
-/

namespace PipeFabric

/-- `TupleType`, an enumeration over `Byte`. -/
inductive TupleType where
  | Normal
  | Punctuation
  deriving DecidableEq

/-- The `Byte` an enumerator stands for. -/
def TupleType.byte : TupleType → UInt8
  | .Normal => 0
  | .Punctuation => 1

/-- `std::tuple_size`. -/
def TupleElements.count {α : Type} : TupleElements α → Nat
  | .last _ => 1
  | .more _ others => others.count + 1

/-- `std::bitset<size>`, which is stored in words of 64 bits. -/
structure Bitset (size : Nat) where
  object : List UInt8
  words : object.length = 8 * ((size + 63) / 64)

/-- `operator[]`. -/
def Bitset.test {size : Nat} (bits : Bitset size) (index : Nat) : Bool :=
  (ByteOrder.ofLittleEndian bits.object).testBit index

/-- The default constructor. -/
def Bitset.none (size : Nat) : Bitset size :=
  ⟨List.replicate (8 * ((size + 63) / 64)) 0, List.length_replicate⟩

namespace Bitset

variable {size : Nat}

/-- `set`. -/
def set (bits : Bitset size) (index : Nat) (value : Bool) : Bitset size :=
  let word := ByteOrder.ofLittleEndian bits.object ||| 2 ^ index
  ⟨ByteOrder.littleEndian (8 * ((size + 63) / 64))
      (if value then word else word ^^^ 2 ^ index),
    ByteOrder.length_littleEndian _ _⟩

theorem test_set (bits : Bitset size) (index : Nat) (value : Bool) {other : Nat}
    (inside : other < size) :
    (bits.set index value).test other = if other = index then value else bits.test other := by
  have room : (256 : Nat) ^ (8 * ((size + 63) / 64)) = 2 ^ (64 * ((size + 63) / 64)) := by
    rw [show (256 : Nat) = 2 ^ 8 from rfl, ← Nat.pow_mul, ← Nat.mul_assoc]
  have fits : other < 64 * ((size + 63) / 64) := by omega
  rw [test, set]
  dsimp only
  rw [ByteOrder.ofLittleEndian_littleEndian, room, Nat.testBit_mod_two_pow]
  by_cases here : other = index
  · subst here
    cases value <;> simp [fits, Nat.testBit_or, Nat.testBit_xor]
  · have apart : index ≠ other := fun same => here same.symm
    cases value <;> simp [fits, here, apart, test, Nat.testBit_or, Nat.testBit_xor]

@[simp] theorem test_none (index : Nat) : (Bitset.none size).test index = false := by
  rw [test, none, ByteOrder.ofLittleEndian_zeros, Nat.zero_testBit]

end Bitset

/-- A bit set is copied as the words that hold it. -/
def Pod.bitset (size : Nat) : Pod (Bitset size) where
  size := 8 * ((size + 63) / 64)
  bytes bits := bits.object
  ofBytes object :=
    if words : object.length = 8 * ((size + 63) / 64) then some ⟨object, words⟩ else none
  length_bytes bits := bits.words
  ofBytes_bytes bits := by rw [dif_pos bits.words]
  bytes_of_ofBytes := by
    intro object bits read
    by_cases words : object.length = 8 * ((size + 63) / 64)
    · rw [dif_pos words] at read
      cases read
      rfl
    · rw [dif_neg words] at read
      cases read

/-- `Tuple`; the reference counter is not part of its value. -/
structure Tuple {α : Type} (Base : TupleElements α) where
  data : α
  mNulls : Bitset Base.count

namespace Tuple

variable {α : Type} {Base : TupleElements α}

/-- The constructor from a `std::tuple`. -/
def ofData (data : α) : Tuple Base := ⟨data, .none Base.count⟩

/-- The copy constructor, which hands only the attributes on. -/
def copy (tuple : Tuple Base) : Tuple Base := ofData tuple.data

@[simp] theorem data_ofData (data : α) : (ofData data : Tuple Base).data = data := rfl

@[simp] theorem copy_ofData (data : α) :
    (ofData data : Tuple Base).copy = ofData data := rfl

theorem ofData_injective : Function.Injective (ofData : α → Tuple Base) :=
  fun _ _ same => congrArg Tuple.data same

/-- `isNull`. -/
def isNull (tuple : Tuple Base) (index : Nat) : Bool := tuple.mNulls.test index

/-- `setNull`, whose assertion fails without such an attribute. -/
def setNull (tuple : Tuple Base) (index : Nat) (value : Bool) : Option (Tuple Base) :=
  if index < Base.count then some { tuple with mNulls := tuple.mNulls.set index value } else none

/-- The flag that was set, and those that were not. -/
theorem isNull_setNull {tuple after : Tuple Base} {index : Nat} {value : Bool}
    (done : tuple.setNull index value = some after) {other : Nat} (inside : other < Base.count) :
    after.isNull other = if other = index then value else tuple.isNull other := by
  rw [setNull] at done
  split at done
  · obtain rfl := Option.some.inj done
    exact Bitset.test_set tuple.mNulls index value inside
  · cases done

/-- A copy has no null attributes. -/
theorem isNull_copy (tuple : Tuple Base) (index : Nat) : tuple.copy.isNull index = false :=
  Bitset.test_none index

/-- `serializeToStream`. -/
def serializeToStream (tuple : Tuple Base) (res : StreamType) : Option StreamType := do
  let res ← serialize (.pod Pod.byte) TupleType.Normal.byte res
  let res ← serialize (.tuple Base) tuple.data res
  serialize (.pod (Pod.bitset Base.count)) tuple.mNulls res

/-- `deserializeFromStream`, which replaces the attributes and the null flags of
the tuple it is called on; the tag is not looked at. -/
def deserializeFromStream (Base : TupleElements α) (res : StreamType) :
    Option (Tuple Base) := do
  let tag ← deserialize (.pod Pod.byte) res
  let data ← deserialize (.tuple Base) tag.2
  let nulls ← deserialize (.pod (Pod.bitset Base.count)) data.2
  some ⟨data.1, nulls.1⟩

/-- The bytes of a tuple: the tag, the attributes and the null flags. -/
def bytes (tuple : Tuple Base) : List UInt8 :=
  Pod.byte.bytes TupleType.Normal.byte ++
    (Base.codec.encode tuple.data ++ (Pod.bitset Base.count).bytes tuple.mNulls)

theorem serializeToStream_eq (tuple : Tuple Base) (res : StreamType) :
    tuple.serializeToStream res = some (res ++ tuple.bytes) := by
  simp [serializeToStream, bytes]

theorem deserializeFromStream_bytes (tuple : Tuple Base) (following : StreamType) :
    deserializeFromStream Base (tuple.bytes ++ following) = some tuple := by
  simp [deserializeFromStream, bytes]

@[simp] theorem serializeToStream_nil (tuple : Tuple Base) :
    tuple.serializeToStream [] = some tuple.bytes := by
  rw [serializeToStream_eq, List.nil_append]

@[simp] theorem deserializeFromStream_bytes_nil (tuple : Tuple Base) :
    deserializeFromStream Base tuple.bytes = some tuple := by
  have read := tuple.deserializeFromStream_bytes []
  rwa [List.append_nil] at read

end Tuple

/-- A vector of two strings, one of them empty. -/
example :
    serialize (.vector .string) ⟨[⟨[72, 105], by simp [UInt64.size]⟩, .empty],
      by simp [UInt64.size]⟩ [255] =
    some [255, 2, 0, 0, 0, 0, 0, 0, 0, 2, 0, 0, 0, 0, 0, 0, 0, 72, 105,
      0, 0, 0, 0, 0, 0, 0, 0] := by
  decide

end PipeFabric
