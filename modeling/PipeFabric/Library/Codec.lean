import Mathlib.Data.List.Basic

/-!
# Self-delimiting formats

A codec turns a value into a sequence of symbols and reads it back from the front
of a longer sequence.  The two laws of a codec say that reading what was written
gives the value and leaves exactly what follows, and that whatever is read was
written that way.  Formats are put together from codecs of fixed size, one after
the other, and with a count in front.
-/

/-- A format whose values need no end mark. -/
structure Codec (Symbol α : Type) where
  encode : α → List Symbol
  decode : List Symbol → Option (α × List Symbol)
  decode_encode : ∀ value rest, decode (encode value ++ rest) = some (value, rest)
  encode_of_decode : ∀ symbols value rest,
    decode symbols = some (value, rest) → symbols = encode value ++ rest

namespace Codec

variable {Symbol α β : Type}

/-- The codec of a representation in a fixed number of symbols. -/
def fixed (size : Nat) (encode : α → List Symbol)
    (decode : List Symbol → Option α)
    (length_encode : ∀ value, (encode value).length = size)
    (decode_encode : ∀ value, decode (encode value) = some value)
    (encode_of_decode : ∀ symbols value,
      decode symbols = some value → encode value = symbols) : Codec Symbol α where
  encode := encode
  decode symbols :=
    if size ≤ symbols.length then
      (decode (symbols.take size)).map fun value => (value, symbols.drop size)
    else none
  decode_encode := by
    intro value rest
    have enough : size ≤ (encode value ++ rest).length := by
      simp [length_encode]
    rw [if_pos enough, List.take_left' (length_encode value),
      List.drop_left' (length_encode value), decode_encode, Option.map_some]
  encode_of_decode := by
    intro symbols value rest read
    by_cases enough : size ≤ symbols.length
    · rw [if_pos enough, Option.map_eq_some_iff] at read
      obtain ⟨found, decoded, same⟩ := read
      obtain ⟨rfl, rfl⟩ := Prod.mk.inj same
      rw [encode_of_decode _ _ decoded, List.take_append_drop]
    · rw [if_neg enough] at read
      cases read

/-- A value of the first format followed by one of the second. -/
def pair (first : Codec Symbol α) (second : Codec Symbol β) :
    Codec Symbol (α × β) where
  encode value := first.encode value.1 ++ second.encode value.2
  decode symbols := do
    let head ← first.decode symbols
    let tail ← second.decode head.2
    some ((head.1, tail.1), tail.2)
  decode_encode := by
    intro value rest
    rw [List.append_assoc]
    simp [first.decode_encode, second.decode_encode]
  encode_of_decode := by
    intro symbols value rest read
    simp only [Option.bind_eq_bind, Option.bind_eq_some_iff,
      Option.some.injEq, Prod.mk.injEq] at read
    obtain ⟨head, readFirst, tail, readSecond, rfl, rfl⟩ := read
    rw [first.encode_of_decode _ _ _ readFirst,
      second.encode_of_decode _ _ _ readSecond, List.append_assoc]

theorem length_cons_counted {count : Nat} (value : α)
    (values : {values : List α // values.length = count}) :
    (value :: values.1).length = count + 1 := by
  rw [List.length_cons, values.2]

/-- One value in front of a given number of values. -/
def consCounted {count : Nat} (value : α)
    (values : {values : List α // values.length = count}) :
    {values : List α // values.length = count + 1} :=
  ⟨value :: values.1, length_cons_counted value values⟩

/-- Reading a given number of values in a row. -/
def decodeTimes (decode : List Symbol → Option (α × List Symbol)) :
    (count : Nat) → List Symbol →
      Option ({values : List α // values.length = count} × List Symbol)
  | 0, symbols => some (⟨[], List.length_nil⟩, symbols)
  | count + 1, symbols => do
      let head ← decode symbols
      let tail ← decodeTimes decode count head.2
      some (consCounted head.1 tail.1, tail.2)

theorem decodeTimes_encode (codec : Codec Symbol α) (values : List α)
    (rest : List Symbol) (count : Nat) (counted : values.length = count) :
    decodeTimes codec.decode count (values.flatMap codec.encode ++ rest) =
      some (⟨values, counted⟩, rest) := by
  induction values generalizing count with
  | nil =>
      subst counted
      rfl
  | cons value values induction =>
      subst counted
      have later := induction values.length rfl
      simp [decodeTimes, consCounted, List.append_assoc, codec.decode_encode, later]

theorem encode_of_decodeTimes (codec : Codec Symbol α) (count : Nat)
    (symbols : List Symbol) (values : {values : List α // values.length = count})
    (rest : List Symbol)
    (read : decodeTimes codec.decode count symbols = some (values, rest)) :
    symbols = values.1.flatMap codec.encode ++ rest := by
  induction count generalizing symbols with
  | zero =>
      simp only [decodeTimes, Option.some.injEq, Prod.mk.injEq] at read
      obtain ⟨rfl, rfl⟩ := read
      rfl
  | succ count induction =>
      simp only [decodeTimes, Option.bind_eq_bind, Option.bind_eq_some_iff,
        Option.some.injEq, Prod.mk.injEq] at read
      obtain ⟨head, readHead, tail, readTail, rfl, rfl⟩ := read
      have first := codec.encode_of_decode _ _ _ readHead
      have later := induction _ tail.1 readTail
      rw [first, later, ← List.append_assoc]
      rfl

end Codec
