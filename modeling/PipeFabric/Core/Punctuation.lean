import PipeFabric.Core.Tuple
import PipeFabric.Qop.Channels

/-!
# Punctuations on a byte stream

A punctuation has a type, a timestamp and a payload of any type, such as the ID
of the transaction it begins or ends.  On the stream it is tagged like a tuple,
but only the timestamp and the type are written.
-/

namespace PipeFabric

/-- `Timestamp`, microseconds in a signed 64-bit number. -/
abbrev Timestamp := Int64

/-- A timestamp is copied as the number it holds. -/
def Pod.timestamp : Pod Timestamp where
  size := 8
  bytes value := Pod.size_t.bytes value.toUInt64
  ofBytes object := (Pod.size_t.ofBytes object).map Int64.ofUInt64
  length_bytes value := Pod.size_t.length_bytes value.toUInt64
  ofBytes_bytes value := by rw [Pod.size_t.ofBytes_bytes]; rfl
  bytes_of_ofBytes := by
    intro object value read
    rw [Option.map_eq_some_iff] at read
    obtain ⟨number, found, rfl⟩ := read
    exact Pod.size_t.bytes_of_ofBytes object number found

namespace PType

/-- The value of an enumerator. -/
def value : PType → Nat
  | .None => 0
  | .EndOfStream => 1
  | .EndOfSubStream => 2
  | .WindowExpired => 4
  | .SlideExpired => 8
  | .TxBegin => 16
  | .TxCommit => 32
  | .TxAbort => 64
  | .All => 4294967295

/-- The enumerators in their order. -/
def enumerators : List PType :=
  [.None, .EndOfStream, .EndOfSubStream, .WindowExpired, .SlideExpired, .TxBegin,
    .TxCommit, .TxAbort, .All]

end PType

/-- An enumerator is copied as an `unsigned int`. -/
def Pod.ptype : Pod PType where
  size := 4
  bytes ptype := ByteOrder.littleEndian 4 ptype.value
  ofBytes object := PType.enumerators.find? fun ptype =>
    ByteOrder.littleEndian 4 ptype.value = object
  length_bytes := by simp
  ofBytes_bytes := by
    intro ptype
    cases ptype <;> rfl
  bytes_of_ofBytes := by
    intro object ptype found
    simpa using List.find?_some found

/-- `Punctuation`; without user data `mData` is empty. -/
structure Punctuation (Payload : Type) where
  mPtype : PType
  mData : Option Payload
  mTstamp : Timestamp
  deriving DecidableEq

namespace Punctuation

variable {Payload : Type}

/-- `serializeToStream`, which leaves out the user data. -/
def serializeToStream (punctuation : Punctuation Payload) (res : StreamType) :
    Option StreamType := do
  let res ← serialize (.pod Pod.byte) TupleType.Punctuation.byte res
  let res ← serialize (.pod Pod.timestamp) punctuation.mTstamp res
  serialize (.pod Pod.ptype) punctuation.mPtype res

/-- `deserializeFromStream`; the user data of the punctuation it is called on
stays as it is. -/
def deserializeFromStream (punctuation : Punctuation Payload) (res : StreamType) :
    Option (Punctuation Payload) := do
  let tag ← deserialize (.pod Pod.byte) res
  let tstamp ← deserialize (.pod Pod.timestamp) tag.2
  let ptype ← deserialize (.pod Pod.ptype) tstamp.2
  some { punctuation with mTstamp := tstamp.1, mPtype := ptype.1 }

/-- The bytes of a punctuation: the tag, the timestamp and the type. -/
def bytes (punctuation : Punctuation Payload) : List UInt8 :=
  Pod.byte.bytes TupleType.Punctuation.byte ++
    (Pod.timestamp.bytes punctuation.mTstamp ++ Pod.ptype.bytes punctuation.mPtype)

theorem serializeToStream_eq (punctuation : Punctuation Payload) (res : StreamType) :
    punctuation.serializeToStream res = some (res ++ punctuation.bytes) := by
  simp [serializeToStream, bytes]

/-- Type and timestamp survive the stream; the user data does not travel. -/
theorem deserializeFromStream_bytes (punctuation target : Punctuation Payload)
    (following : StreamType) :
    target.deserializeFromStream (punctuation.bytes ++ following) =
      some { punctuation with mData := target.mData } := by
  simp [deserializeFromStream, bytes]

end Punctuation

/-- One call on the data or on the punctuation channel of an operator. -/
inductive StreamItem (Element Payload : Type) where
  | element (data : Element) (outdated : Bool)
  | punctuation (punctuation : Punctuation Payload)
  deriving DecidableEq

end PipeFabric
