import Mathlib.Algebra.Group.Nat.Defs

/-!
# Little-endian numbers

The bytes of an unsigned number, least significant byte first, and the number
that a sequence of bytes stands for.  With the width of the sequence fixed the
two are inverse to each other.
-/

namespace ByteOrder

/-- The lowest `width` bytes of a number. -/
def littleEndian : Nat → Nat → List UInt8
  | 0, _ => []
  | width + 1, number => UInt8.ofNat number :: littleEndian width (number / 256)

/-- The number that the bytes stand for. -/
def ofLittleEndian : List UInt8 → Nat
  | [] => 0
  | byte :: bytes => byte.toNat + 256 * ofLittleEndian bytes

@[simp] theorem length_littleEndian (width number : Nat) :
    (littleEndian width number).length = width := by
  induction width generalizing number with
  | zero => rfl
  | succ width induction => simp [littleEndian, induction]

theorem ofLittleEndian_littleEndian (width number : Nat) :
    ofLittleEndian (littleEndian width number) = number % 256 ^ width := by
  induction width generalizing number with
  | zero => simp [littleEndian, ofLittleEndian, Nat.mod_one]
  | succ width induction =>
      have lowest : (UInt8.ofNat number).toNat = number % 256 := by
        simp
      have split : number % 256 ^ (width + 1) =
          number % 256 + 256 * (number / 256 % 256 ^ width) := by
        rw [Nat.pow_succ, Nat.mul_comm]
        exact Nat.mod_mul
      simp only [littleEndian, ofLittleEndian, induction, lowest, split]

theorem littleEndian_ofLittleEndian (bytes : List UInt8) :
    littleEndian bytes.length (ofLittleEndian bytes) = bytes := by
  induction bytes with
  | nil => rfl
  | cons byte bytes induction =>
      have small : byte.toNat < 256 := byte.toNat_lt
      have lowest : UInt8.ofNat (byte.toNat + 256 * ofLittleEndian bytes) = byte := by
        apply UInt8.toNat_inj.mp
        simp only [UInt8.toNat_ofNat']
        omega
      have others : (byte.toNat + 256 * ofLittleEndian bytes) / 256 =
          ofLittleEndian bytes := by
        omega
      simp only [List.length_cons, littleEndian, ofLittleEndian, lowest, others,
        induction]

theorem ofLittleEndian_zeros (width : Nat) :
    ofLittleEndian (List.replicate width 0) = 0 := by
  induction width with
  | zero => rfl
  | succ width induction =>
      rw [List.replicate_succ, ofLittleEndian, induction]
      rfl

theorem ofLittleEndian_lt (bytes : List UInt8) :
    ofLittleEndian bytes < 256 ^ bytes.length := by
  induction bytes with
  | nil => simp [ofLittleEndian]
  | cons byte bytes induction =>
      have small : byte.toNat < 256 := byte.toNat_lt
      have power : 256 ^ (bytes.length + 1) = 256 * 256 ^ bytes.length := by
        rw [Nat.pow_succ, Nat.mul_comm]
      simp only [ofLittleEndian, List.length_cons, power]
      omega

end ByteOrder
