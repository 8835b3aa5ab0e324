import Mathlib.Algebra.Group.Nat.Defs
import PipeFabric.Library.Splitting

/-!
# Extracting tuples from text lines

`TupleExtractor` splits a line of text at a separator and parses each field as one
attribute of a tuple; here every attribute is a string.  A `const char*` is modelled
by the memory from where it points to, so reading behind the end of the line is
reading from the empty list.
-/

namespace PipeFabric.TupleExtractor

/-- A line as `processDataElement` expects it: the bytes before the terminator. -/
structure CString where
  bytes : List UInt8
  terminated : 0 ∉ bytes

/-- The memory from the beginning of the line to its terminator. -/
def CString.begin (line : CString) : List UInt8 := line.bytes ++ [0]

/-- `StringRef`; `nullptr` is a pointer behind which there is no memory. -/
structure StringRef where
  begin_ : List UInt8
  size_ : Int

/-- What `setValues` stores for the size of a field: an `int`. -/
def toInt (size : Nat) : Int := (size : Int).bmod (2 ^ 32)

/-- `StringRefAttributeParser<std::string>::parse`; the constructor of `std::string`
throws for a negative size. -/
def parse (input : StringRef) : Option (List UInt8) :=
  let size := min 1023 input.size_
  if size < 0 then none
  else if input.begin_.length < size.toNat then none
  else some (input.begin_.take size.toNat)

/-- The inner loop `while (*s && *s != ifs) s++`: the number of steps and where `s`
points at the end. -/
def skipField (ifs : UInt8) : List UInt8 → Option (Nat × List UInt8)
  | [] => none
  | c :: rest =>
      if c ≠ 0 ∧ c ≠ ifs then
        (skipField ifs rest).map fun skipped => (skipped.1 + 1, skipped.2)
      else some (0, c :: rest)

/-- The values of `data[i]` and `nulls[i]` for a field of `size` bytes at `item`. -/
def field (item : List UInt8) (size : Nat) : StringRef × Bool :=
  if size = 0 then (⟨[], 0⟩, true) else (⟨item, toInt size⟩, false)

/-- The outer loop and the one behind it, for the attributes that are left:
`data` and `nulls` have no place for a field when none is left. -/
def splitLine (ifs : UInt8) : Nat → List UInt8 → Option (List (StringRef × Bool))
  | _, [] => none
  | 0, c :: _ => if c = 0 then some [] else none
  | left + 1, c :: rest =>
      if c = 0 then some (List.replicate (left + 1) (⟨[], 0⟩, true))
      else
        (skipField ifs (c :: rest)).bind fun skipped =>
          let first := field (c :: rest) skipped.1
          if left = 0 then some [first]
          else (splitLine ifs left skipped.2.tail).map fun others => first :: others

/-- An attribute of the tuple that is created, `none` where `setNull` was called. -/
def createAttribute (entry : StringRef × Bool) : Option (Option (List UInt8)) :=
  (parse entry.1).map fun value => if entry.2 then none else some value

/-- `processDataElement`, for a tuple type with `attributes` attributes; `none` if it
reads behind the terminator, writes behind `data` or throws. -/
def processDataElement (ifs : UInt8) (attributes : Nat) (line : CString) :
    Option (List (Option (List UInt8))) :=
  (splitLine ifs attributes line.begin).bind fun entries => entries.mapM createAttribute

/-- What an attribute should be, for the fields of the line. -/
def attributeAt (fields : List (List UInt8)) (index : Nat) : Option (List UInt8) :=
  match fields[index]? with
  | none => none
  | some bytes => if bytes = [] then none else some bytes

/-- The tuple that should be created. -/
def expected (ifs : UInt8) (attributes : Nat) (line : CString) :
    List (Option (List UInt8)) :=
  (List.range attributes).map (attributeAt (line.bytes.splitOn ifs))

/-- The line is long enough for the tuple, or nothing is behind its last separator, and
none of the fields that are used is cut off. -/
def Fits (ifs : UInt8) (attributes : Nat) (line : CString) : Prop :=
  (attributes ≤ (line.bytes.splitOn ifs).length ∨
    (line.bytes.splitOn ifs).getLast? = some []) ∧
  ∀ bytes ∈ (line.bytes.splitOn ifs).take attributes, bytes.length ≤ 1023

/-! ## One field -/

theorem skipField_stops {ifs stop : UInt8} {bytes : List UInt8} (terminated : 0 ∉ bytes)
    (free : ifs ∉ bytes) (stops : stop = 0 ∨ stop = ifs) (behind : List UInt8) :
    skipField ifs (bytes ++ stop :: behind) = some (bytes.length, stop :: behind) := by
  induction bytes with
  | nil =>
      have ends : ¬ (stop ≠ 0 ∧ stop ≠ ifs) := by
        intro both
        rcases stops with zero | separator
        · exact both.1 zero
        · exact both.2 separator
      exact if_neg ends
  | cons c bytes induction =>
      have goesOn : c ≠ 0 ∧ c ≠ ifs := by
        constructor
        · intro zero
          exact terminated (zero ▸ List.mem_cons_self)
        · intro separator
          exact free (separator ▸ List.mem_cons_self)
      have rest := induction (fun inside => terminated (List.mem_cons_of_mem c inside))
        (fun inside => free (List.mem_cons_of_mem c inside))
      rw [List.cons_append, skipField, if_pos goesOn, rest]
      rfl

/-- A field survives if and only if it is not longer than 1023 bytes. -/
theorem parse_field_iff (bytes behind : List UInt8) :
    parse ⟨bytes ++ behind, toInt bytes.length⟩ = some bytes ↔ bytes.length ≤ 1023 := by
  unfold parse
  constructor
  · intro parsed
    dsimp only at parsed
    split at parsed
    · cases parsed
    · split at parsed
      · cases parsed
      · have length := congrArg List.length (Option.some.inj parsed)
        rw [List.length_take] at length
        omega
  · intro short
    have size : min 1023 (toInt bytes.length) = (bytes.length : Int) := by
      have exact : toInt bytes.length = bytes.length := by
        unfold toInt
        apply Int.bmod_eq_of_le
        · omega
        · omega
      rw [exact]
      omega
    dsimp only
    rw [size, if_neg (by omega), Int.toNat_natCast, if_neg (by simp), List.take_left]

/-- An attribute of the tuple is what it should be if and only if its field is not longer
than 1023 bytes. -/
theorem createAttribute_field_iff (bytes behind : List UInt8) :
    createAttribute (field (bytes ++ behind) bytes.length) =
        some (if bytes = [] then none else some bytes) ↔
      bytes.length ≤ 1023 := by
  by_cases empty : bytes = []
  · subst empty
    exact ⟨fun _ => Nat.zero_le _, fun _ => rfl⟩
  · have some_bytes : bytes.length ≠ 0 := fun zero =>
      empty (List.eq_nil_of_length_eq_zero zero)
    rw [field, if_neg some_bytes, if_neg empty, ← parse_field_iff bytes behind]
    simp only [createAttribute, Bool.false_eq_true, if_false, Option.map_eq_some_iff,
      Option.some.injEq, exists_eq_right]

/-! ## The fields of a line -/

theorem splitLine_nil (ifs : UInt8) (attributes : Nat) :
    splitLine ifs attributes [] = none := by
  cases attributes with
  | zero => rfl
  | succ left => rfl

/-- Behind the last field nothing is read only if no attribute is left. -/
theorem splitLine_last {ifs : UInt8} {bytes : List UInt8} (terminated : 0 ∉ bytes)
    (free : ifs ∉ bytes) (nonempty : bytes ≠ []) (left : Nat) :
    splitLine ifs (left + 1) (bytes ++ [0]) =
      if left = 0 then some [field (bytes ++ [0]) bytes.length] else none := by
  have skipped := skipField_stops terminated free (.inl rfl) []
  cases bytes with
  | nil => exact absurd rfl nonempty
  | cons c rest =>
      have some_byte : c ≠ 0 := fun zero => terminated (zero ▸ List.mem_cons_self)
      rw [List.cons_append] at skipped ⊢
      rw [splitLine, if_neg some_byte, skipped, Option.bind_some]
      simp only [List.tail_cons, splitLine_nil, Option.map_none]

/-- One field is split off at a separator. -/
theorem splitLine_more {ifs : UInt8} {bytes rest : List UInt8} (terminated : 0 ∉ bytes)
    (separator : ifs ≠ 0) (free : ifs ∉ bytes) (left : Nat) :
    splitLine ifs (left + 1) (bytes ++ ifs :: rest) =
      if left = 0 then some [field (bytes ++ ifs :: rest) bytes.length]
      else (splitLine ifs left rest).map fun others =>
        field (bytes ++ ifs :: rest) bytes.length :: others := by
  have skipped := skipField_stops terminated free (.inr rfl) rest
  cases bytes with
  | nil =>
      rw [List.nil_append] at skipped ⊢
      rw [splitLine, if_neg separator, skipped, Option.bind_some]
      simp only [List.tail_cons]
  | cons c others =>
      have some_byte : c ≠ 0 := fun zero => terminated (zero ▸ List.mem_cons_self)
      rw [List.cons_append] at skipped ⊢
      rw [splitLine, if_neg some_byte, skipped, Option.bind_some]
      simp only [List.tail_cons]

/-- What is created from the memory from the beginning of a line. -/
def created (ifs : UInt8) (attributes : Nat) (s : List UInt8) :
    Option (List (Option (List UInt8))) :=
  (splitLine ifs attributes s).bind fun entries => entries.mapM createAttribute

theorem created_empty (ifs : UInt8) (attributes : Nat) :
    created ifs attributes [0] = some (List.replicate attributes none) := by
  have split : splitLine ifs attributes [0] =
      some (List.replicate attributes (⟨[], 0⟩, true)) := by
    cases attributes with
    | zero => rfl
    | succ left => rfl
  rw [created, split, Option.bind_some]
  induction attributes with
  | zero => rfl
  | succ attributes induction =>
      have rest := induction (by cases attributes with | zero => rfl | succ left => rfl)
      rw [List.replicate_succ, List.mapM_cons, rest]
      rfl

/-- The first attribute and the others. -/
theorem created_map_iff (ifs : UInt8) (attributes : Nat) (entry : StringRef × Bool)
    (s : List UInt8) (first : Option (List UInt8)) (others : List (Option (List UInt8))) :
    ((splitLine ifs attributes s).map fun entries => entry :: entries).bind
        (fun entries => entries.mapM createAttribute) = some (first :: others) ↔
      createAttribute entry = some first ∧ created ifs attributes s = some others := by
  unfold created
  cases splitLine ifs attributes s with
  | none => simp
  | some entries =>
      rw [Option.map_some, Option.bind_some, List.mapM_cons]
      cases createAttribute entry with
      | none => simp
      | some value =>
          cases created : entries.mapM createAttribute with
          | none => simp [created]
          | some values => simp [created]

/-- What should be created for a line with a separator. -/
theorem expected_more (part : List UInt8) (fields : List (List UInt8)) (left : Nat) :
    (List.range (left + 1)).map (attributeAt (part :: fields)) =
      (if part = [] then none else some part) ::
        (List.range left).map (attributeAt fields) := by
  rw [List.range_succ_eq_map, List.map_cons, List.map_map]
  rfl

theorem created_single_iff (entry : StringRef × Bool) (first : Option (List UInt8)) :
    ((some [entry]).bind fun entries => entries.mapM createAttribute) = some [first] ↔
      createAttribute entry = some first := by
  rw [Option.bind_some, List.mapM_cons]
  cases createAttribute entry with
  | none => simp
  | some value => simp

/-- For the bytes of any line and at least one attribute. -/
theorem created_eq_iff (ifs : UInt8) (bytes : List UInt8) :
    0 ∉ bytes → ∀ left,
    (created ifs (left + 1) (bytes ++ [0]) =
        some ((List.range (left + 1)).map (attributeAt (bytes.splitOn ifs))) ↔
      (left + 1 ≤ (bytes.splitOn ifs).length ∨
        (bytes.splitOn ifs).getLast? = some []) ∧
      ∀ part ∈ (bytes.splitOn ifs).take (left + 1), part.length ≤ 1023) := by
  induction bytes using Splitting.induction ifs with
  | last part free =>
      intro terminated left
      rw [List.splitOn_eq_singleton free, expected_more]
      by_cases empty : part = []
      · subst empty
        have others : (List.range left).map (attributeAt []) = List.replicate left none := by
          apply List.eq_replicate_iff.mpr
          refine ⟨by rw [List.length_map, List.length_range], ?_⟩
          intro value inside
          obtain ⟨index, _, rfl⟩ := List.mem_map.mp inside
          rfl
        rw [others, List.nil_append, created_empty]
        simp [List.replicate_succ]
      · rw [created, splitLine_last terminated free empty]
        by_cases lastOne : left = 0
        · subst lastOne
          rw [if_pos rfl]
          simpa using (created_single_iff _ _).trans (createAttribute_field_iff part [0])
        · rw [if_neg lastOne]
          simp [empty, lastOne]
  | more part rest free induction =>
      intro terminated left
      have separator : ifs ≠ 0 := by
        rintro rfl
        exact terminated (List.mem_append_right _ List.mem_cons_self)
      have partTerminated : 0 ∉ part := fun inside =>
        terminated (List.mem_append_left _ inside)
      have restTerminated : 0 ∉ rest := fun inside =>
        terminated (List.mem_append_right _ (List.mem_cons_of_mem _ inside))
      rw [List.splitOn_append_cons_self_of_not_mem free, expected_more, List.append_assoc,
        List.cons_append, created, splitLine_more partTerminated separator free]
      cases left with
      | zero =>
          rw [if_pos rfl]
          simpa using
            (created_single_iff _ _).trans (createAttribute_field_iff part _)
      | succ left =>
          have nonempty := List.splitOn_ne_nil ifs rest
          have last : (part :: rest.splitOn ifs).getLast? = (rest.splitOn ifs).getLast? := by
            obtain ⟨first, others, parts⟩ := List.exists_cons_of_ne_nil nonempty
            rw [parts, List.getLast?_cons_cons]
          rw [if_neg (Nat.succ_ne_zero left), created_map_iff, createAttribute_field_iff,
            induction restTerminated left, last, List.length_cons, List.take_succ_cons,
            List.forall_mem_cons, Nat.add_le_add_iff_right]
          constructor
          · intro both
            exact ⟨both.2.1, both.1, both.2.2⟩
          · intro both
            exact ⟨both.2.1, both.1, both.2.2⟩

/-- Extracting reads nothing behind the terminator and yields the fields of the line,
for any separator, number of attributes and line, if and only if the line has enough
fields or nothing behind its last separator, and no field that is used is longer than
1023 bytes.  `parseTuple` does not compile for a tuple type without attributes. -/
theorem tupleExtractor_splits_iff (ifs : UInt8) (left : Nat) (line : CString) :
    processDataElement ifs (left + 1) line = some (expected ifs (left + 1) line) ↔
      Fits ifs (left + 1) line :=
  created_eq_iff ifs line.bytes line.terminated left

/-- One attribute is there, two are wanted: behind the terminator of the line, another
field is looked for. -/
theorem not_tupleExtractor_splits :
    ¬ ∀ (ifs : UInt8) (left : Nat) (line : CString),
      processDataElement ifs (left + 1) line = some (expected ifs (left + 1) line) := by
  intro splits
  have extracted := splits 44 1 ⟨[65], by decide⟩
  revert extracted
  decide

end PipeFabric.TupleExtractor
