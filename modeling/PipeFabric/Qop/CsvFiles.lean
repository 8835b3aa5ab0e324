import PipeFabric.Library.ListPairs
import PipeFabric.Qop.Channels
import PipeFabric.Qop.TextFileReaders
import PipeFabric.Qop.TupleExtractor

/-!
# From a file of tuples back to the tuples

`FileWriter` writes a line for every valid tuple, with the attributes separated by
commas.  `MemorySource` reads such a file with a `TextFileSource`, a `TupleExtractor`
and a `Notify` operator, keeps the tuples, and publishes them when it is started.  All
attributes are strings here, as for the extractor.
-/

namespace PipeFabric

open Splitting
open TextFileSource (newline MAX_TUPLE_SIZE strchr mapped mappedLoop readMemoryMappedFile)

/-- A tuple with so many attributes; a null attribute has its default value. -/
structure StringTuple (attributes : Nat) where
  values : List (Option (List UInt8))
  length_eq : values.length = attributes

namespace FileWriter

/-- `,`. -/
def comma : UInt8 := 44

/-- What is printed of an attribute, whether it is null or not. -/
def attributeText : Option (List UInt8) → List UInt8
  | none => []
  | some value => value

/-- `TuplePrinter::print`. -/
def print : List (Option (List UInt8)) → List UInt8
  | [] => []
  | [last] => attributeText last
  | first :: second :: others => attributeText first ++ comma :: print (second :: others)

/-- `processDataElement` with `defaultFormatter`: what it appends to the file. -/
def processDataElement {attributes : Nat} (input : Change (StringTuple attributes)) :
    List UInt8 :=
  if input.outdated then [] else print input.data.values ++ [newline]

/-- The file after some elements. -/
def written {attributes : Nat} (inputs : List (Change (StringTuple attributes))) :
    List UInt8 :=
  inputs.flatMap processDataElement

end FileWriter

namespace MemorySource

/-- The extractor on a line in `store`, behind which `produceTuple` has put a
terminator. -/
def extract (delim : UInt8) (attributes : Nat) (line : List UInt8) :
    Option (List (Option (List UInt8))) :=
  TupleExtractor.created delim attributes (line ++ [0])

/-- `prepare`: the tuples that are kept. -/
def prepare (pageShift : Nat) (delim : UInt8) (attributes limit : Nat)
    (content : List UInt8) : Option (List (List (Option (List UInt8)))) :=
  (readMemoryMappedFile pageShift limit content).bind fun lines =>
    lines.mapM (extract delim attributes)

/-- `start`: what it publishes. -/
def start (data : List (List (Option (List UInt8)))) :
    List (Published (List (Option (List UInt8)))) :=
  data.map (fun values => .element ⟨values, false⟩) ++ [.punctuation .EndOfStream]

end MemorySource

/-! ### What an extracted attribute is -/

/-- A value that a field of a line can have. -/
structure IsField (delim : UInt8) (value : List UInt8) : Prop where
  nonempty : value ≠ []
  free : delim ∉ value
  short : value.length ≤ 1023

namespace TupleExtractor

/-- An entry for a part of the line that is free of separators. -/
def IsPart (ifs : UInt8) (bytes : List UInt8) (entry : StringRef × Bool) : Prop :=
  ∃ part behind, entry = field (part ++ behind) part.length ∧ ifs ∉ part ∧ part ⊆ bytes ∧
    part.length ≤ bytes.length

theorem isPart_empty (ifs : UInt8) (bytes : List UInt8) :
    IsPart ifs bytes (⟨[], 0⟩, true) :=
  ⟨[], [], rfl, List.not_mem_nil, List.nil_subset _, Nat.zero_le _⟩

theorem IsPart.behind {ifs : UInt8} {bytes part : List UInt8} {entry : StringRef × Bool}
    (isPart : IsPart ifs bytes entry) : IsPart ifs (part ++ ifs :: bytes) entry := by
  obtain ⟨inner, behind, rfl, free, inside, length⟩ := isPart
  refine ⟨inner, behind, rfl, free, ?_, ?_⟩
  · exact List.subset_append_of_subset_right _ (List.subset_cons_of_subset _ inside)
  · rw [List.length_append, List.length_cons]
    omega

/-- All entries are for parts of the line. -/
theorem isPart_of_splitLine {ifs : UInt8} (bytes : List UInt8) :
    0 ∉ bytes → ∀ left entries,
    splitLine ifs (left + 1) (bytes ++ [0]) = some entries →
    ∀ entry ∈ entries, IsPart ifs bytes entry := by
  induction bytes using Splitting.induction ifs with
  | last part free =>
      intro terminated left entries split entry member
      by_cases empty : part = []
      · subst empty
        cases split
        rw [List.eq_of_mem_replicate member]
        apply isPart_empty
      · rw [splitLine_last terminated free empty] at split
        split at split
        · cases split
          rw [List.mem_singleton.mp member]
          exact ⟨part, [0], rfl, free, List.Subset.refl _, Nat.le_refl _⟩
        · cases split
  | more part rest free induction =>
      intro terminated left entries split entry member
      have separator : ifs ≠ 0 := by
        rintro rfl
        exact terminated (List.mem_append_right _ List.mem_cons_self)
      have partTerminated : 0 ∉ part := fun inside =>
        terminated (List.mem_append_left _ inside)
      have restTerminated : 0 ∉ rest := fun inside =>
        terminated (List.mem_append_right _ (List.mem_cons_of_mem _ inside))
      have here : IsPart ifs (part ++ ifs :: rest)
          (field (part ++ ifs :: (rest ++ [0])) part.length) := by
        refine ⟨part, _, rfl, free, List.subset_append_left _ _, ?_⟩
        rw [List.length_append]
        omega
      rw [List.append_assoc, List.cons_append,
        splitLine_more partTerminated separator free] at split
      cases left with
      | zero =>
          rw [if_pos rfl] at split
          cases split
          rw [List.mem_singleton.mp member]
          exact here
      | succ left =>
          rw [if_neg (Nat.succ_ne_zero left)] at split
          obtain ⟨others, behind, rfl⟩ := Option.map_eq_some_iff.mp split
          rcases List.mem_cons.mp member with rfl | later
          · exact here
          · exact (induction restTerminated left others behind entry later).behind

/-- The value of an attribute is a field of the line. -/
theorem isField_of_createAttribute {ifs : UInt8} {bytes value : List UInt8}
    {entry : StringRef × Bool} (isPart : IsPart ifs bytes entry)
    (short : bytes.length < 2 ^ 31)
    (created : createAttribute entry = some (some value)) :
    IsField ifs value ∧ value ⊆ bytes := by
  obtain ⟨part, behind, rfl, free, inside, length⟩ := isPart
  by_cases empty : part = []
  · subst empty
    cases created
  · have nonzero : part.length ≠ 0 := fun zero => empty (List.eq_nil_of_length_eq_zero zero)
    have exact : toInt part.length = part.length := by
      apply Int.bmod_eq_of_le
      · omega
      · omega
    rw [field, if_neg nonzero] at created
    simp only [createAttribute, parse, exact, Bool.false_eq_true, if_false,
      Option.map_eq_some_iff, Option.some.injEq, exists_eq_right] at created
    have size : (min 1023 (part.length : Int)).toNat = min 1023 part.length := by omega
    rw [if_neg (by omega), size, if_neg (by simp)] at created
    cases created
    rw [List.take_append_of_le_length (Nat.min_le_right _ _)]
    refine ⟨⟨?_, ?_, ?_⟩, fun c member => inside (List.mem_of_mem_take member)⟩
    · intro nothing
      have length := congrArg List.length nothing
      rw [List.length_take, List.length_nil] at length
      omega
    · exact fun member => free (List.mem_of_mem_take member)
    · rw [List.length_take]
      omega

/-- Whatever is extracted, the values of its attributes are fields of the line. -/
theorem isField_of_created {ifs : UInt8} {bytes : List UInt8} (terminated : 0 ∉ bytes)
    (short : bytes.length < 2 ^ 31) {left : Nat} {values : List (Option (List UInt8))}
    (extracted : created ifs (left + 1) (bytes ++ [0]) = some values)
    {value : List UInt8} (member : some value ∈ values) :
    IsField ifs value ∧ value ⊆ bytes := by
  obtain ⟨entries, split, made⟩ := Option.bind_eq_some_iff.mp extracted
  obtain ⟨entry, among, creates⟩ :=
    ListPairs.exists_of_mem_right (ListPairs.forall₂_of_mapM made) member
  exact isField_of_createAttribute
    (isPart_of_splitLine bytes terminated left entries split entry among) short creates

end TupleExtractor

/-! ### What the memory-mapped file gives -/

namespace TextFileSource

/-- The newline that is found ends a part without any newline or terminator. -/
theorem strchr_eq_some {p : List UInt8} {length : Nat}
    (found : strchr p = some (some length)) :
    ∃ part rest, p = part ++ newline :: rest ∧ part.length = length ∧
      newline ∉ part ∧ 0 ∉ part := by
  induction p generalizing length with
  | nil => cases found
  | cons c p induction =>
      rw [strchr] at found
      by_cases here : c = newline
      · rw [if_pos here] at found
        cases found
        exact ⟨[], p, by rw [here, List.nil_append], rfl, List.not_mem_nil, List.not_mem_nil⟩
      · rw [if_neg here] at found
        by_cases zero : c = 0
        · rw [if_pos zero] at found
          cases found
        · rw [if_neg zero] at found
          obtain ⟨inner, later, same⟩ := Option.map_eq_some_iff.mp found
          obtain ⟨before, behind, rfl⟩ := Option.map_eq_some_iff.mp same
          subst behind
          obtain ⟨part, rest, rfl, size, free, text⟩ := induction later
          refine ⟨c :: part, rest, rfl, by rw [List.length_cons, size], ?_, ?_⟩
          · exact fun member => free ((List.mem_cons.mp member).resolve_left (Ne.symm here))
          · exact fun member => text ((List.mem_cons.mp member).resolve_left (Ne.symm zero))

/-- The lines that are published are the first ones, and none of them is too long. -/
theorem mappedLoop_lines {maxTuples : Nat} (rounds : Nat) :
    ∀ {ntuples : Nat} {p : List UInt8} {lines : List (List UInt8)},
    mappedLoop maxTuples rounds ntuples p = some lines →
    lines <+: splitLines newline p ∧
      ∀ line ∈ lines, newline ∉ line ∧ 0 ∉ line ∧ line.length < MAX_TUPLE_SIZE := by
  induction rounds with
  | zero =>
      intro ntuples p lines read
      cases read
  | succ rounds induction =>
      intro ntuples p lines read
      obtain ⟨found, searched, read⟩ := Option.bind_eq_some_iff.mp read
      cases found with
      | none =>
          cases read
          exact ⟨List.nil_prefix, fun _ member => absurd member List.not_mem_nil⟩
      | some length =>
          obtain ⟨part, rest, rfl, size, free, text⟩ := strchr_eq_some searched
          subst size
          dsimp only at read
          have line : (part ++ newline :: rest).take part.length = part := List.take_left
          have behind : (part ++ newline :: rest).drop (part.length + 1) = rest := by
            rw [← List.drop_drop, List.drop_left]
            rfl
          rw [line, behind] at read
          rw [splitLines_more free]
          by_cases long : MAX_TUPLE_SIZE < part.length + 1
          · rw [if_pos long] at read
            cases read
          · rw [if_neg long] at read
            have short : part.length < MAX_TUPLE_SIZE := by omega
            split at read
            · cases read
              refine ⟨List.prefix_cons_inj part |>.mpr List.nil_prefix, ?_⟩
              exact List.forall_mem_cons.mpr
                ⟨⟨free, text, short⟩, fun _ member => absurd member List.not_mem_nil⟩
            · obtain ⟨others, later, rfl⟩ := Option.map_eq_some_iff.mp read
              obtain ⟨first, every⟩ := induction later
              exact ⟨(List.prefix_cons_inj part).mpr first,
                List.forall_mem_cons.mpr ⟨⟨free, text, short⟩, every⟩⟩

end TextFileSource

/-! ### One tuple -/

namespace FileWriter

theorem mem_print {values : List (Option (List UInt8))} {c : UInt8}
    (member : c ∈ print values) : c = comma ∨ ∃ value, some value ∈ values ∧ c ∈ value := by
  induction values with
  | nil => cases member
  | cons first others induction =>
      have own : c ∈ attributeText first → ∃ value, some value ∈ first :: others ∧ c ∈ value := by
        intro inside
        cases first with
        | none => cases inside
        | some value => exact ⟨value, List.mem_cons_self, inside⟩
      cases others with
      | nil => exact .inr (own member)
      | cons second others =>
          rcases List.mem_append.mp member with here | rest
          · exact .inr (own here)
          · rcases List.mem_cons.mp rest with separator | later
            · exact .inl separator
            · rcases induction later with separator | inside
              · exact .inl separator
              · obtain ⟨value, among, has⟩ := inside
                exact .inr ⟨value, List.mem_cons_of_mem _ among, has⟩

/-- The fields of a printed tuple are its attributes. -/
theorem splitOn_print {values : List (Option (List UInt8))} (nonempty : values ≠ [])
    (free : ∀ value, some value ∈ values → comma ∉ value) :
    (print values).splitOn comma = values.map attributeText := by
  induction values with
  | nil => exact absurd rfl nonempty
  | cons first others induction =>
      have own : comma ∉ attributeText first := by
        cases first with
        | none => exact List.not_mem_nil
        | some value => exact free value List.mem_cons_self
      cases others with
      | nil => exact List.splitOn_eq_singleton own
      | cons second others =>
          rw [print, List.splitOn_append_cons_self_of_not_mem own,
            induction (List.cons_ne_nil _ _)
              (fun value member => free value (List.mem_cons_of_mem _ member))]
          rfl

/-- The valid tuples of a stream. -/
def valid {attributes : Nat} (inputs : List (Change (StringTuple attributes))) :
    List (List (Option (List UInt8))) :=
  (inputs.filter fun input => !input.outdated).map fun input => input.data.values

end FileWriter

open FileWriter (comma attributeText print written valid)

/-- A tuple that survives: its values are fields of a line of text, and the line is not
too long. -/
structure Restorable {attributes : Nat} (tuple : StringTuple attributes) : Prop where
  fields : ∀ value, some value ∈ tuple.values →
    IsField comma value ∧ newline ∉ value ∧ 0 ∉ value
  short : (print tuple.values).length < MAX_TUPLE_SIZE

section

variable {left : Nat} {tuple : StringTuple (left + 1)}

theorem StringTuple.nonempty (tuple : StringTuple (left + 1)) : tuple.values ≠ [] := by
  intro nothing
  have length := tuple.length_eq
  rw [nothing] at length
  cases length

theorem Restorable.text (restorable : Restorable tuple) : 0 ∉ print tuple.values := by
  intro member
  rcases FileWriter.mem_print member with separator | inside
  · cases separator
  · obtain ⟨value, among, has⟩ := inside
    exact (restorable.fields value among).2.2 has

theorem Restorable.line (restorable : Restorable tuple) : newline ∉ print tuple.values := by
  intro member
  rcases FileWriter.mem_print member with separator | inside
  · cases separator
  · obtain ⟨value, among, has⟩ := inside
    exact (restorable.fields value among).2.1 has

/-- The extractor gives the tuple back. -/
theorem Restorable.extract (restorable : Restorable tuple) :
    MemorySource.extract comma (left + 1) (print tuple.values) = some tuple.values := by
  have split := FileWriter.splitOn_print tuple.nonempty
    fun value member => (restorable.fields value member).1.free
  have fields := (TupleExtractor.created_eq_iff comma (print tuple.values)
    restorable.text left).mpr (by
      rw [split]
      refine ⟨.inl (by simp [tuple.length_eq]), ?_⟩
      intro part member
      obtain ⟨value, among, rfl⟩ := List.mem_map.mp (List.mem_of_mem_take member)
      cases value with
      | none => exact Nat.zero_le _
      | some value => exact (restorable.fields value among).1.short)
  rw [MemorySource.extract, fields, split, Option.some.injEq]
  apply List.ext_getElem?
  intro index
  rw [List.getElem?_map]
  by_cases inside : index < left + 1
  · have present : index < tuple.values.length := by rw [tuple.length_eq]; exact inside
    rw [List.getElem?_range inside, Option.map_some, List.getElem?_eq_getElem present,
      TupleExtractor.attributeAt, List.getElem?_map, List.getElem?_eq_getElem present,
      Option.map_some]
    dsimp only
    cases value_eq : tuple.values[index] with
    | none => rfl
    | some value =>
        have among : some value ∈ tuple.values := by
          rw [← value_eq]
          exact List.getElem_mem present
        rw [attributeText, if_neg (restorable.fields value among).1.nonempty]
  · rw [List.getElem?_eq_none (by simpa using inside),
      List.getElem?_eq_none (by rw [tuple.length_eq]; omega), Option.map_none]

end

/-! ### The whole file -/

namespace FileWriter

variable {attributes : Nat}

theorem mem_valid {inputs : List (Change (StringTuple attributes))}
    {values : List (Option (List UInt8))} :
    values ∈ valid inputs ↔
      ∃ input ∈ inputs, input.outdated = false ∧ input.data.values = values := by
  simp [valid, and_assoc]

theorem written_cons (input : Change (StringTuple attributes))
    (inputs : List (Change (StringTuple attributes))) :
    written (input :: inputs) = processDataElement input ++ written inputs :=
  List.flatMap_cons

/-- The lines of the file are the printed tuples. -/
theorem splitLines_written {inputs : List (Change (StringTuple attributes))}
    (free : ∀ values ∈ valid inputs, newline ∉ print values) (rest : List UInt8) :
    splitLines newline (written inputs ++ rest) =
      (valid inputs).map print ++ splitLines newline rest := by
  induction inputs with
  | nil => rfl
  | cons input inputs induction =>
      rw [written_cons, List.append_assoc, processDataElement]
      cases outdated : input.outdated with
      | true =>
          have same : valid (input :: inputs) = valid inputs := by simp [valid, outdated]
          rw [same] at free ⊢
          exact induction free
      | false =>
          have first : valid (input :: inputs) = input.data.values :: valid inputs := by
            simp [valid, outdated]
          rw [first] at free ⊢
          obtain ⟨here, later⟩ := List.forall_mem_cons.mp free
          rw [if_neg Bool.false_ne_true, List.append_assoc, List.singleton_append,
            splitLines_more here, induction later, List.map_cons, List.cons_append]

/-- Every line that is written is ended. -/
theorem ended_written (inputs : List (Change (StringTuple attributes))) :
    TextFileSource.Ended 0 0 (written inputs) := by
  right
  induction inputs with
  | nil =>
      intro last none
      cases none
  | cons input inputs induction =>
      intro last ends
      rw [written_cons, List.getLast?_append] at ends
      cases later : (written inputs).getLast? with
      | some behind =>
          rw [later, Option.some_or] at ends
          exact induction last (later.trans ends)
      | none =>
          rw [later, Option.none_or, processDataElement] at ends
          split at ends
          · cases ends
          · rw [List.getLast?_concat] at ends
            cases ends
            rfl

/-- When the lines of the file are short, all of them are read if and only if they are
free of zero bytes and the file does not fill its last page. -/
theorem read_written_iff {inputs : List (Change (StringTuple attributes))}
    (free : ∀ values ∈ valid inputs, newline ∉ print values)
    (short : ∀ values ∈ valid inputs, (print values).length < MAX_TUPLE_SIZE)
    (pageShift : Nat) :
    readMemoryMappedFile pageShift 0 (written inputs) = some ((valid inputs).map print) ↔
      (∀ values ∈ valid inputs, 0 ∉ print values) ∧
        (written inputs).length % 2 ^ pageShift ≠ 0 := by
  have lines : splitLines newline (written inputs) = (valid inputs).map print := by
    have whole := splitLines_written free []
    rwa [List.append_nil, splitLines_nil, List.append_nil] at whole
  have wanted : TextFileSource.wanted 0 (written inputs) = (valid inputs).map print := lines
  have bounded : ∀ line ∈ splitLines newline (written inputs),
      line.length < MAX_TUPLE_SIZE := by
    rw [lines]
    exact List.forall_mem_map.mpr short
  have unlimited : ¬ TextFileSource.Reached 0 0 (written inputs) := fun reached =>
    reached.1 rfl
  have exact := TextFileSource.readMemoryMappedFile_eq_iff pageShift 0 bounded
  rw [wanted, List.forall_mem_map] at exact
  rw [exact]
  constructor
  · intro regular
    exact ⟨regular.2.1, regular.2.2.resolve_left unlimited⟩
  · intro regular
    exact ⟨ended_written inputs, regular.1, .inr regular.2⟩

end FileWriter

theorem MemorySource.start_injective {data others : List (List (Option (List UInt8)))}
    (same : start data = start others) : data = others := by
  apply List.map_injective_iff.mpr ?_ (List.append_cancel_right same)
  intro values other equal
  cases equal
  rfl

section

variable {left : Nat} {inputs : List (Change (StringTuple (left + 1)))} {pageShift : Nat}

/-- Tuples that are restored have fields of lines of text as values, and their lines are
the lines that were read. -/
theorem restored_lines
    (prepared : MemorySource.prepare pageShift comma (left + 1) 0 (written inputs) =
      some (valid inputs)) :
    (∀ values ∈ valid inputs, ∀ value, some value ∈ values →
      IsField comma value ∧ newline ∉ value ∧ 0 ∉ value) ∧
    readMemoryMappedFile pageShift 0 (written inputs) = some ((valid inputs).map print) ∧
    ∀ values ∈ valid inputs, (print values).length < MAX_TUPLE_SIZE := by
  obtain ⟨lines, read, extracted⟩ := Option.bind_eq_some_iff.mp prepared
  obtain ⟨first, text⟩ := TextFileSource.mappedLoop_lines _ read
  have pairs := ListPairs.forall₂_of_mapM extracted
  have fields : ∀ values ∈ valid inputs, ∀ value, some value ∈ values →
      IsField comma value ∧ newline ∉ value ∧ 0 ∉ value := by
    intro values among value member
    obtain ⟨line, inside, gives⟩ := ListPairs.exists_of_mem_right pairs among
    obtain ⟨free, terminated, short⟩ := text line inside
    have bounded : line.length < 2 ^ 31 := Nat.lt_trans short (by decide)
    obtain ⟨isField, subset⟩ :=
      TupleExtractor.isField_of_created terminated bounded gives member
    exact ⟨isField, fun has => free (subset has), fun has => terminated (subset has)⟩
  have free : ∀ values ∈ valid inputs, newline ∉ print values := by
    intro values among member
    rcases FileWriter.mem_print member with separator | inside
    · cases separator
    · obtain ⟨value, here, has⟩ := inside
      exact (fields values among value here).2.1 has
  have same : lines = (valid inputs).map print := by
    rw [mapped, FileWriter.splitLines_written free, List.prefix_iff_eq_take,
      pairs.length_eq] at first
    rw [first, List.take_left']
    rw [List.length_map]
  subst same
  refine ⟨fields, read, ?_⟩
  intro values among
  exact (text (print values) (List.mem_map_of_mem among)).2.2

end

end PipeFabric
