import Mathlib.Data.List.Infix
import Mathlib.Data.List.Nodup
import PipeFabric.Library.FiniteMap
import PipeFabric.Library.Splitting
import PipeFabric.Qcomp.SQLParser

/-!
# Frequent trajectories

The landmarks that users visited are sequences of numbers.  `PrefixSpan` looks for parts of
them that many sequences have: it takes the parts of one length that occur often enough,
projects the sequences to what begins with such a part, and grows the part by one element.
A pattern is a part of a vector that patterns share.
-/

namespace PipeFabric.FreqTrajectories

open FiniteMap (Entries Reordering)
open SQL (Text printInt)

/-! ## Patterns -/

/-- A part of a vector, with the number of times that it was found. -/
structure Pattern where
  seqData : List Int
  start : Nat
  len : Nat
  freq : Nat
  inside : start + len ≤ seqData.length

namespace Pattern

theorem ofVector_inside (vec : List Int) : 0 + vec.length ≤ vec.length :=
  Nat.le_of_eq (Nat.zero_add _)

theorem new_inside : 0 + 0 ≤ ([] : List Int).length := Nat.le_refl _

/-- `Pattern(const std::vector<int>&, std::size_t)`. -/
def ofVector (vec : List Int) (f : Nat) : Pattern := ⟨vec, 0, vec.length, f, ofVector_inside vec⟩

/-- `Pattern(std::size_t)`. -/
def new : Pattern := ⟨[], 0, 0, 1, new_inside⟩

/-- `Pattern(const Pattern&, std::size_t)`. -/
def copy (seq : Pattern) (f : Nat) : Pattern :=
  { seq with freq := if 0 < f then f else seq.freq }

def isEmpty (this : Pattern) : Bool := this.len == 0

def incrFrequency (this : Pattern) : Pattern := { this with freq := this.freq + 1 }

/-- `operator[]`; `none` for an exception. -/
def elementAt (this : Pattern) (pos : Nat) : Option Int := this.seqData[this.start + pos]?

/-- The length of a slice. -/
def sliceLength (this : Pattern) (s l : Nat) : Nat := if l = 0 then this.len - s else l

theorem slice_inside (this : Pattern) (s l : Nat) (fits : s + this.sliceLength s l ≤ this.len) :
    this.start + s + this.sliceLength s l ≤ this.seqData.length :=
  Nat.le_trans (by omega) this.inside

/-- `slice`, which does not check that it stays in the pattern. -/
def slice (this : Pattern) (s l : Nat) (fits : s + this.sliceLength s l ≤ this.len) : Pattern :=
  ⟨this.seqData, this.start + s, this.sliceLength s l, 1, slice_inside this s l fits⟩

/-- The elements of a pattern. -/
def elements (this : Pattern) : List Int := (this.seqData.drop this.start).take this.len

def concat (this : Pattern) (i : Int) : Pattern :=
  ofVector ((this.seqData.drop this.start).take this.len ++ [i]) 1

/-- The comparison with a loop over the places. -/
def isEqualN (this seq : Pattern) (maxLen : Nat) : Bool :=
  if this.len < maxLen || seq.len < maxLen then false
  else (List.range maxLen).all fun i =>
    this.seqData[i + this.start]? == seq.seqData[i + seq.start]?

def isEqualAt (this : Pattern) (pos : Nat) (seq : Pattern) : Bool :=
  if this.len - pos < seq.len then false
  else (List.range seq.len).all fun i => this.elementAt (i + pos) == seq.elementAt i

def contains (this seq : Pattern) : Bool :=
  if this.len ≤ seq.len then false
  else (List.range (this.len - seq.len + 1)).any fun i => this.isEqualAt i seq

/-- `operator==`. -/
def equals (this seq : Pattern) : Bool :=
  if this.len ≠ seq.len then false
  else (List.range this.len).all fun i =>
    this.seqData[i + this.start]? == seq.seqData[i + seq.start]?

def hasPrefix (this seq : Pattern) : Bool :=
  if this.len ≤ seq.len then false else this.isEqualN seq seq.len

/-- `findFirst`; `none` for -1. -/
def findFirst (this : Pattern) (elem : Option Int) : Option (Fin this.len) :=
  (List.finRange this.len).find? fun i => this.elementAt i = elem

theorem suffix_fits (this : Pattern) (first : Fin this.len) :
    first + this.sliceLength first 0 ≤ this.len := by
  rw [sliceLength, if_pos rfl]
  omega

/-- `findSuffix`.  The loop compares no more places than those of the part that lie before
its length in the pattern. -/
def findSuffix (this pfx : Pattern) : Pattern :=
  match this.findFirst (pfx.elementAt 0) with
  | none => new
  | some first =>
      let pmin := min this.len pfx.len
      if (List.range' (first + 1) (pmin - (first + 1))).all fun p =>
          this.elementAt p == pfx.elementAt (p - first) then
        this.slice first 0 (suffix_fits this first)
      else new

theorem subPattern_fits (this : Pattern) (i pfxLen : Nat) (fits : i + pfxLen ≤ this.len) :
    i + this.sliceLength i pfxLen ≤ this.len := by
  rw [sliceLength]
  split <;> omega

def findSubPatterns (this : Pattern) (pfxLen : Nat) : List Pattern :=
  (List.range this.len).filterMap fun i =>
    if fits : i + pfxLen ≤ this.len then
      some (this.slice i pfxLen (subPattern_fits this i pfxLen fits))
    else none

/-- The elements as `operator<<` prints them. -/
def print : List Int → Text
  | [] => []
  | [elem] => printInt elem
  | elem :: next :: others => printInt elem ++ ',' :: print (next :: others)

def toString (this : Pattern) : Text := print this.elements

end Pattern

/-! ## Mining -/

/-- The least support, and the orders of iteration of the two kinds of `unordered_map`. -/
structure PrefixSpan where
  minSupport : Nat
  prefixOrder : Reordering Text Pattern
  itemOrder : Reordering Int Nat

/-- What is added to a list for every element of another one, if all of it is there. -/
def collect {α β : Type} (found : α → Option (List β)) : List α → Option (List β)
  | [] => some []
  | element :: others => do
      let here ← found element
      let later ← collect found others
      return here ++ later

namespace PrefixSpan

def projectedPatternDB (dataSet : List Pattern) (pfx : Pattern) : List Pattern :=
  dataSet.filterMap fun seq =>
    let pseq := seq.findSuffix pfx
    if pseq.isEmpty then none else some pseq

/-- The map of `findFreqPrefixes`. -/
def prefixMap (dataSet : List Pattern) (pfxLen : Nat) : Entries Text Pattern :=
  dataSet.foldl
    (fun prefixMap seq =>
      (seq.findSubPatterns pfxLen).foldl
        (FiniteMap.group Pattern.toString (fun sub => sub.copy 0) Pattern.incrFrequency) prefixMap)
    ∅

def findFreqPrefixes (this : PrefixSpan) (dataSet : List Pattern) (pfxLen : Nat) :
    List Pattern :=
  ((this.prefixOrder.arrange (prefixMap dataSet pfxLen).entries).map Sigma.snd).filter
    fun pattern => this.minSupport ≤ pattern.freq

/-- The elements behind a pattern that the loop of `growPattern` counts. -/
def grownItems (dataSet : List Pattern) (pattern : Pattern) (pfxLen : Nat) : List Int :=
  dataSet.filterMap fun seq =>
    if seq.len ≤ pfxLen - 1 then none
    else if seq.isEqualN pattern (pfxLen - 1) && pfxLen ≤ seq.len then
      seq.elementAt (pfxLen - 1)
    else none

def growPattern (this : PrefixSpan) (dataSet : List Pattern) (pattern : Pattern)
    (pfxLen : Nat) : List Pattern :=
  (this.itemOrder.arrange
    ((grownItems dataSet pattern pfxLen).foldl
      (FiniteMap.group id (fun _ => 1) (· + 1)) ∅).entries).map
    fun item => (pattern.concat item.1).copy item.2

/-- `mineFreqPatterns`; `none` when the calls are nested deeper than the first number. -/
def mineFreqPatterns (this : PrefixSpan) : Nat → List Pattern → Nat → Option (List Pattern)
  | 0, _, _ => none
  | depth + 1, dataSet, pfxLen =>
      collect
        (fun pfx =>
          let pdb := projectedPatternDB dataSet pfx
          collect
            (fun pattern =>
              if this.minSupport ≤ pattern.freq then
                (mineFreqPatterns this depth pdb (pfxLen + 1)).map (pattern :: ·)
              else some [])
            (this.growPattern pdb pfx (pfxLen + 2)))
        (this.findFreqPrefixes dataSet (pfxLen + 1))

/-- The condition under which `suppressSubPatterns` drops the pattern at a place. -/
def suppressed (dataSet : List Pattern) (p1 : Nat) (pattern : Pattern) : Bool :=
  dataSet.zipIdx.any fun other =>
    other.2 ≠ p1 && (pattern.equals other.1 && p1 < other.2 || other.1.contains pattern)

def suppressSubPatterns (dataSet : List Pattern) : List Pattern :=
  (dataSet.zipIdx.filter fun entry => ! suppressed dataSet entry.2 entry.1).map Prod.fst

end PrefixSpan

/-! ## What the functions on patterns mean -/

namespace Pattern

variable (this seq : Pattern)

@[simp] theorem length_elements : this.elements.length = this.len := by
  have inside := this.inside
  simp only [elements, List.length_take, List.length_drop]
  omega

@[simp] theorem elements_ofVector (vec : List Int) (f : Nat) :
    (ofVector vec f).elements = vec := by
  simp [elements, ofVector]

@[simp] theorem elements_new : new.elements = [] := rfl

@[simp] theorem elements_copy (f : Nat) : (seq.copy f).elements = seq.elements := rfl

theorem elements_concat (i : Int) : (this.concat i).elements = this.elements ++ [i] := by
  rw [concat, elements_ofVector, elements]

theorem isEmpty_iff : this.isEmpty ↔ this.elements = [] := by
  rw [isEmpty, beq_iff_eq, ← length_elements, List.length_eq_zero_iff]

/-- What is read from the vector inside of a pattern. -/
theorem getElem_elements {pos : Nat} (inside : pos < this.len) :
    this.seqData[this.start + pos]? = this.elements[pos]? := by
  rw [elements, List.getElem?_take, if_pos inside, List.getElem?_drop]

theorem elements_slice (s l : Nat) (fits : s + this.sliceLength s l ≤ this.len) :
    (this.slice s l fits).elements = (this.elements.drop s).take (this.sliceLength s l) := by
  have least : min (this.sliceLength s l) (this.len - s) = this.sliceLength s l := by
    omega
  rw [slice, elements, elements, List.drop_take, List.take_take, List.drop_drop, least]

/-- Equal places up to a length. -/
theorem take_eq_take_iff {first second : List Int} {maxLen : Nat} :
    (∀ i < maxLen, first[i]? = second[i]?) ↔ first.take maxLen = second.take maxLen := by
  constructor
  · intro same
    apply List.ext_getElem?
    intro i
    rw [List.getElem?_take, List.getElem?_take]
    split
    next less => exact same i less
    next => rfl
  · intro same i less
    have equal := congrArg (·[i]?) same
    simpa [List.getElem?_take, less] using equal

theorem isEqualN_iff (maxLen : Nat) :
    this.isEqualN seq maxLen ↔ maxLen ≤ this.len ∧ maxLen ≤ seq.len ∧
      this.elements.take maxLen = seq.elements.take maxLen := by
  rw [isEqualN]
  by_cases short : maxLen ≤ this.len ∧ maxLen ≤ seq.len
  · obtain ⟨one, two⟩ := short
    rw [← take_eq_take_iff]
    have fits : (this.len < maxLen || seq.len < maxLen) = false := by
      simp [one, two]
    simp only [fits, Bool.false_eq_true, if_false, List.all_eq_true, List.mem_range, beq_iff_eq,
      one, two, true_and]
    apply forall_congr'
    intro i
    apply imp_congr_right
    intro less
    rw [Nat.add_comm i this.start, Nat.add_comm i seq.start,
      getElem_elements this (Nat.lt_of_lt_of_le less one),
      getElem_elements seq (Nat.lt_of_lt_of_le less two)]
  · have outside : (this.len < maxLen || seq.len < maxLen) = true := by
      simp only [Bool.or_eq_true, decide_eq_true_eq]
      omega
    simp only [outside, if_true, Bool.false_eq_true, false_iff]
    intro all
    exact short ⟨all.1, all.2.1⟩

theorem equals_iff : this.equals seq ↔ this.elements = seq.elements := by
  by_cases same : this.len = seq.len
  · have whole : this.equals seq = this.isEqualN seq this.len := by
      simp [equals, isEqualN, same]
    rw [whole, isEqualN_iff, ← length_elements this, List.take_length, length_elements, same,
      ← length_elements seq, List.take_length]
    simp
  · have different : this.elements ≠ seq.elements := by
      intro equal
      exact same (by simpa using congrArg List.length equal)
    simp [equals, same, different]

theorem isEqualAt_iff {pos : Nat} (before : pos + seq.len ≤ this.len) :
    this.isEqualAt pos seq ↔ seq.elements <+: this.elements.drop pos := by
  have fits : ¬ this.len - pos < seq.len := by omega
  have whole : seq.elements.take seq.len = seq.elements :=
    List.take_of_length_le (Nat.le_of_eq seq.length_elements)
  have places : (this.isEqualAt pos seq : Prop) ↔
      ∀ i < seq.len, (this.elements.drop pos)[i]? = seq.elements[i]? := by
    rw [isEqualAt, if_neg fits, List.all_eq_true]
    simp only [List.mem_range, beq_iff_eq]
    apply forall_congr'
    intro i
    apply imp_congr_right
    intro less
    rw [elementAt, elementAt, getElem_elements this (by omega), getElem_elements seq less,
      List.getElem?_drop, Nat.add_comm]
  rw [places, take_eq_take_iff, whole, List.prefix_iff_eq_take, length_elements, eq_comm]

theorem contains_iff :
    this.contains seq ↔ seq.elements <:+: this.elements ∧ seq.len < this.len := by
  rw [contains]
  by_cases longer : seq.len < this.len
  · rw [if_neg (Nat.not_le.mpr longer), List.infix_iff_prefix_suffix]
    simp only [List.any_eq_true, List.mem_range, longer, and_true]
    constructor
    · intro found
      obtain ⟨i, inside, equal⟩ := found
      exact ⟨_, (this.isEqualAt_iff seq (by omega)).mp equal, List.drop_suffix _ _⟩
    · intro found
      obtain ⟨rest, starts, ends⟩ := found
      rw [List.suffix_iff_eq_drop] at ends
      have short := starts.length_le
      have shorter : rest.length ≤ this.len := by
        rw [ends]
        simp
      rw [length_elements] at short ends
      refine ⟨this.len - rest.length, by omega, ?_⟩
      rw [isEqualAt_iff _ _ (by omega), ← ends]
      exact starts
  · rw [if_pos (Nat.not_lt.mp longer)]
    simp [longer]

theorem elementAt_eq {pos : Nat} (less : pos < this.len) :
    this.elementAt pos = this.elements[pos]? :=
  getElem_elements this less

theorem findFirst_some {elem : Option Int} {first : Fin this.len}
    (found : this.findFirst elem = some first) : this.elements[(first : Nat)]? = elem := by
  rw [findFirst] at found
  have equal := List.find?_some found
  rw [← elementAt_eq this first.isLt]
  exact of_decide_eq_true equal

/-- A suffix of a pattern is one of its elements, and begins like the part that is looked
for. -/
theorem findSuffix_cases (pfx : Pattern) (some : 0 < pfx.len) :
    (this.findSuffix pfx).elements = [] ∨
      (this.findSuffix pfx).elements <:+ this.elements ∧
        (this.findSuffix pfx).elements.head? = pfx.elements.head? := by
  rw [findSuffix]
  cases found : this.findFirst (pfx.elementAt 0) with
  | none => exact .inl rfl
  | some first =>
      dsimp only
      split
      · have equal := findFirst_some this found
        rw [elementAt_eq pfx some] at equal
        have whole : (this.slice first 0 (suffix_fits this first)).elements =
            this.elements.drop first := by
          rw [elements_slice, sliceLength, if_pos rfl]
          apply List.take_of_length_le
          simp
        rw [whole]
        refine .inr ⟨List.drop_suffix _ _, ?_⟩
        rw [List.head?_drop, equal, List.head?_eq_getElem?]
      · exact .inl rfl

/-- In a sequence without repetitions the part is found. -/
theorem findSuffix_eq {pfx : Pattern} {before behind : List Int}
    (split : this.elements = before ++ (pfx.elements ++ behind)) (some : 0 < pfx.len)
    (nodup : this.elements.Nodup) :
    (this.findSuffix pfx).elements = pfx.elements ++ behind := by
  have length := congrArg List.length split
  simp only [List.length_append, length_elements] at length
  have places : ∀ pos, pos < pfx.len →
      this.elements[before.length + pos]? = pfx.elements[pos]? := by
    intro pos less
    rw [split, List.getElem?_append_right (Nat.le_add_right _ _), Nat.add_sub_cancel_left,
      List.getElem?_append_left (by simpa using less)]
  have present : (this.findFirst (pfx.elementAt 0)).isSome := by
    rw [findFirst, List.find?_isSome]
    refine ⟨⟨before.length, by omega⟩, List.mem_finRange _, ?_⟩
    rw [decide_eq_true_iff, elementAt_eq this (by dsimp only; omega), elementAt_eq pfx some]
    exact places 0 some
  obtain ⟨first, found⟩ := Option.isSome_iff_exists.mp present
  have equal := findFirst_some this found
  rw [elementAt_eq pfx some, ← places 0 some] at equal
  have here : (first : Nat) = before.length :=
    (List.getElem?_inj (by simp) nodup).mp equal
  have compared : (List.range' (first + 1) (min this.len pfx.len - (first + 1))).all
      (fun p => this.elementAt p == pfx.elementAt (p - first)) = true := by
    rw [List.all_eq_true]
    intro p inside
    rw [List.mem_range'_1] at inside
    rw [beq_iff_eq, elementAt_eq this (by omega), elementAt_eq pfx (by omega),
      ← places (p - first) (by omega), here]
    congr 1
    omega
  rw [findSuffix, found]
  dsimp only
  rw [if_pos compared, elements_slice, sliceLength, if_pos rfl, here, split,
    List.drop_left]
  apply List.take_of_length_le
  simp only [List.length_append, length_elements]
  omega

/-- The parts of a length are the parts of the elements. -/
theorem findSubPatterns_sound {pfxLen : Nat} (some : 0 < pfxLen) {sub : Pattern}
    (member : sub ∈ this.findSubPatterns pfxLen) :
    sub.elements <:+: this.elements ∧ sub.len = pfxLen ∧ sub.freq = 1 := by
  obtain ⟨i, _, made⟩ := List.mem_filterMap.mp member
  by_cases fits : i + pfxLen ≤ this.len
  · rw [dif_pos fits] at made
    cases made
    refine ⟨?_, if_neg (Nat.ne_of_gt some), rfl⟩
    rw [elements_slice]
    exact (List.take_prefix _ _).isInfix.trans (List.drop_suffix _ _).isInfix
  · rw [dif_neg fits] at made
    cases made

theorem findSubPatterns_complete {part : List Int} (inside : part <:+: this.elements)
    (some : part ≠ []) :
    ∃ sub ∈ this.findSubPatterns part.length, sub.elements = part := by
  obtain ⟨before, behind, split⟩ := inside
  have length := congrArg List.length split
  simp only [List.length_append, length_elements] at length
  have longer := List.length_pos_iff.mpr some
  have fits : before.length + part.length ≤ this.len := by omega
  refine ⟨this.slice before.length part.length
    (subPattern_fits this before.length part.length fits), ?_, ?_⟩
  · apply List.mem_filterMap.mpr
    exact ⟨before.length, List.mem_range.mpr (by omega), dif_pos fits⟩
  · rw [elements_slice, sliceLength, if_neg (Nat.ne_of_gt longer), ← split, List.append_assoc,
      List.drop_left, List.take_left]

/-! ### Keys -/

theorem comma_not_mem_printInt (value : Int) : ',' ∉ printInt value := by
  have digits : ',' ∉ Nat.toDigits 10 value.natAbs := by
    intro member
    have decimal := Nat.isDigit_of_mem_toDigits (by decide) (by decide) member
    exact absurd decimal (by decide)
  rw [printInt]
  split
  · intro member
    rcases List.mem_cons.mp member with sign | digit
    · exact absurd sign (by decide)
    · exact digits digit
  · exact digits

theorem printInt_injective : Function.Injective printInt := by
  have digits : ∀ first second : Nat, Nat.toDigits 10 first = Nat.toDigits 10 second →
      first = second := by
    intro first second same
    rw [← Nat.ofDigitChars_ten_toDigits (n := first), same, Nat.ofDigitChars_ten_toDigits]
  have unsigned : ∀ number, Nat.toDigits 10 number ≠ [] ∧ '-' ∉ Nat.toDigits 10 number := by
    intro number
    refine ⟨Nat.toDigits_ne_nil, ?_⟩
    intro member
    have decimal := Nat.isDigit_of_mem_toDigits (by decide) (by decide) member
    exact absurd decimal (by decide)
  intro first second same
  rw [printInt, printInt] at same
  split at same <;> split at same
  · have equal := digits _ _ (List.cons.inj same).2
    omega
  · have sign := (unsigned second.natAbs).2
    rw [← same] at sign
    exact absurd List.mem_cons_self sign
  · have sign := (unsigned first.natAbs).2
    rw [same] at sign
    exact absurd List.mem_cons_self sign
  · have equal := digits _ _ same
    omega

/-- Sequences of one length that are printed alike are the same. -/
theorem print_injective {first second : List Int} (length : first.length = second.length)
    (same : print first = print second) : first = second := by
  induction first generalizing second with
  | nil => exact (List.eq_nil_of_length_eq_zero length.symm).symm
  | cons elem others induction =>
      cases second with
      | nil => cases length
      | cons other more =>
          have lengths : others.length = more.length := Nat.succ.inj length
          cases others with
          | nil =>
              obtain rfl := List.eq_nil_of_length_eq_zero lengths.symm
              rw [printInt_injective same]
          | cons next others =>
              cases more with
              | nil => cases lengths
              | cons following more =>
                  rw [print, print] at same
                  have parts := (Splitting.append_sep_inj (comma_not_mem_printInt elem)
                    (comma_not_mem_printInt other)).mp same
                  rw [printInt_injective parts.1, induction lengths parts.2]

end Pattern

/-! ## Support -/

/-- In a sequence without repetitions a part that begins with the first element is at the
beginning. -/
theorem prefix_of_infix {sequence part : List Int} (nodup : sequence.Nodup)
    (inside : part <:+: sequence) (head : sequence.head? = part.head?) :
    part <+: sequence := by
  obtain ⟨before, behind, rfl⟩ := inside
  cases before with
  | nil => exact List.prefix_append part behind
  | cons first before =>
      have own : first ∈ part := List.mem_of_mem_head? head.symm
      rw [List.append_assoc] at nodup
      have fresh := (List.nodup_cons.mp nodup).1
      exact absurd (List.mem_append_right _ (List.mem_append_left _ own)) fresh

/-- How many sequences have a sequence as a part. -/
def support (dataSet : List Pattern) (sequence : List Int) : Nat :=
  dataSet.countP fun seq => sequence <:+: seq.elements

/-- How many sequences begin with a sequence. -/
def beginnings (dataSet : List Pattern) (sequence : List Int) : Nat :=
  dataSet.countP fun seq => sequence <+: seq.elements

theorem support_mono (dataSet : List Pattern) {part sequence : List Int}
    (inside : part <:+: sequence) : support dataSet sequence ≤ support dataSet part := by
  apply List.countP_mono_left
  intro seq _ whole
  rw [decide_eq_true_iff] at whole ⊢
  exact inside.trans whole

theorem beginnings_mono (dataSet : List Pattern) {part sequence : List Int}
    (begins : part <+: sequence) : beginnings dataSet sequence ≤ beginnings dataSet part := by
  apply List.countP_mono_left
  intro seq _ whole
  rw [decide_eq_true_iff] at whole ⊢
  exact begins.trans whole

theorem beginnings_le_support (dataSet : List Pattern) (sequence : List Int) :
    beginnings dataSet sequence ≤ support dataSet sequence := by
  apply List.countP_mono_left
  intro seq _ begins
  rw [decide_eq_true_iff] at begins ⊢
  exact begins.isInfix

namespace PrefixSpan

/-! ### Projections -/

theorem mem_projectedPatternDB {dataSet : List Pattern} {pfx pseq : Pattern} :
    pseq ∈ projectedPatternDB dataSet pfx ↔
      ∃ seq ∈ dataSet, seq.findSuffix pfx = pseq ∧ pseq.elements ≠ [] := by
  rw [projectedPatternDB, List.mem_filterMap]
  apply exists_congr
  intro seq
  apply and_congr_right
  intro _
  dsimp only
  by_cases empty : (seq.findSuffix pfx).isEmpty
  · rw [if_pos empty]
    rw [Pattern.isEmpty_iff] at empty
    constructor
    · intro none
      cases none
    · intro found
      rw [← found.1] at found
      exact absurd empty found.2
  · rw [if_neg empty]
    rw [Pattern.isEmpty_iff] at empty
    constructor
    · intro same
      cases same
      exact ⟨rfl, empty⟩
    · intro found
      exact congrArg some found.1

/-- What a projection keeps are ends of the sequences that begin like the part. -/
theorem of_mem_projectedPatternDB {dataSet : List Pattern} {pfx pseq : Pattern}
    (some : 0 < pfx.len) (member : pseq ∈ projectedPatternDB dataSet pfx) :
    ∃ seq ∈ dataSet, pseq.elements <:+ seq.elements ∧
      pseq.elements.head? = pfx.elements.head? := by
  obtain ⟨seq, inside, rfl, present⟩ := mem_projectedPatternDB.mp member
  have ends := (seq.findSuffix_cases pfx some).resolve_left present
  exact ⟨seq, inside, ends⟩

theorem support_projectedPatternDB_le (dataSet : List Pattern) {pfx : Pattern}
    (some : 0 < pfx.len) (sequence : List Int) (nonempty : sequence ≠ []) :
    support (projectedPatternDB dataSet pfx) sequence ≤ support dataSet sequence := by
  rw [support, projectedPatternDB, List.countP_filterMap]
  apply List.countP_mono_left
  intro seq _ inside
  rw [decide_eq_true_iff]
  dsimp only at inside
  split at inside
  · cases inside
  · have part : sequence <:+: (seq.findSuffix pfx).elements := by
      simpa using inside
    rcases seq.findSuffix_cases pfx some with empty | ends
    · rw [empty] at part
      exact absurd (List.infix_nil.mp part) nonempty
    · exact part.trans ends.1.isInfix

/-- Sequences without repetitions keep a sequence that begins with the part. -/
theorem support_projectedPatternDB {dataSet : List Pattern} {pfx : Pattern}
    (some : 0 < pfx.len) (nodup : ∀ seq ∈ dataSet, seq.elements.Nodup)
    {sequence : List Int} (begins : pfx.elements <+: sequence) :
    support (projectedPatternDB dataSet pfx) sequence = support dataSet sequence := by
  have nonempty : sequence ≠ [] := by
    intro empty
    rw [empty, List.prefix_nil, ← Pattern.isEmpty_iff, Pattern.isEmpty, beq_iff_eq] at begins
    omega
  apply Nat.le_antisymm (support_projectedPatternDB_le dataSet some sequence nonempty)
  rw [support, support, projectedPatternDB, List.countP_filterMap]
  apply List.countP_mono_left
  intro seq member inside
  rw [decide_eq_true_iff] at inside
  obtain ⟨before, behind, split⟩ := inside
  obtain ⟨rest, rfl⟩ := begins
  have parts : seq.elements = before ++ (pfx.elements ++ (rest ++ behind)) := by
    rw [← split]
    simp
  have found := seq.findSuffix_eq parts some (nodup seq member)
  have present : ¬ (seq.findSuffix pfx).isEmpty := by
    rw [Pattern.isEmpty_iff, found, List.append_eq_nil_iff, ← Pattern.isEmpty_iff,
      Pattern.isEmpty, beq_iff_eq]
    omega
  dsimp only
  rw [if_neg present, Option.map_some, Option.getD_some, decide_eq_true_iff, found,
    ← List.append_assoc]
  exact (List.prefix_append _ _).isInfix

/-- In a projection of sequences without repetitions what begins like the part is at the
beginning. -/
theorem beginnings_projectedPatternDB {dataSet : List Pattern} {pfx : Pattern}
    (some : 0 < pfx.len) (nodup : ∀ seq ∈ dataSet, seq.elements.Nodup)
    {sequence : List Int} (begins : pfx.elements <+: sequence) :
    beginnings (projectedPatternDB dataSet pfx) sequence = support dataSet sequence := by
  rw [← support_projectedPatternDB some nodup begins]
  apply Nat.le_antisymm (beginnings_le_support _ _)
  apply List.countP_mono_left
  intro pseq member inside
  rw [decide_eq_true_iff] at inside ⊢
  obtain ⟨seq, original, ends, head⟩ := of_mem_projectedPatternDB some member
  have distinct : pseq.elements.Nodup := (nodup seq original).sublist ends.sublist
  obtain ⟨rest, rfl⟩ := begins
  have nonempty : pfx.elements ≠ [] := by
    rw [← List.length_pos_iff, Pattern.length_elements]
    exact some
  apply prefix_of_infix distinct inside
  rw [head, List.head?_append_of_ne_nil _ nonempty]

/-! ### Frequent parts -/

theorem incrFrequency_iterate (pattern : Pattern) (times : Nat) :
    Pattern.incrFrequency^[times] pattern = { pattern with freq := pattern.freq + times } := by
  induction times generalizing pattern with
  | zero => rfl
  | succ times induction =>
      rw [Function.iterate_succ_apply, induction, Pattern.incrFrequency, Nat.add_assoc,
        Nat.add_comm 1]

/-- The map holds the first part of every key, with the number of parts. -/
theorem contents_prefixMap (dataSet : List Pattern) (pfxLen : Nat) (key : Text) :
    FiniteMap.contents (prefixMap dataSet pfxLen) key =
      match (dataSet.flatMap fun seq => seq.findSubPatterns pfxLen).filter
          fun sub => sub.toString = key with
      | [] => none
      | sub :: others => some { sub.copy 0 with freq := (sub.copy 0).freq + others.length } := by
  rw [prefixMap, ← List.foldl_flatMap, FiniteMap.contents_foldl_group]
  cases (dataSet.flatMap fun seq => seq.findSubPatterns pfxLen).filter
      fun sub => sub.toString = key with
  | nil => rfl
  | cons sub others => exact congrArg some (incrFrequency_iterate _ _)

theorem mem_findFreqPrefixes {this : PrefixSpan} {dataSet : List Pattern} {pfxLen : Nat}
    {pattern : Pattern} :
    pattern ∈ this.findFreqPrefixes dataSet pfxLen ↔
      (∃ key, FiniteMap.contents (prefixMap dataSet pfxLen) key = some pattern) ∧
        this.minSupport ≤ pattern.freq := by
  rw [findFreqPrefixes, List.mem_filter, decide_eq_true_iff]
  apply and_congr_left
  intro _
  rw [List.mem_map]
  constructor
  · intro found
    obtain ⟨entry, member, rfl⟩ := found
    have present := (this.prefixOrder.perm _).mem_iff.mp member
    exact ⟨entry.1, FiniteMap.mem_contents_iff.mpr present⟩
  · intro found
    obtain ⟨key, present⟩ := found
    have member := FiniteMap.mem_contents_iff.mp present
    exact ⟨⟨key, pattern⟩, (this.prefixOrder.perm _).mem_iff.mpr member, rfl⟩

theorem len_of_mem_findFreqPrefixes {this : PrefixSpan} {dataSet : List Pattern}
    {pfxLen : Nat} (some : 0 < pfxLen) {pattern : Pattern}
    (member : pattern ∈ this.findFreqPrefixes dataSet pfxLen) :
    pattern.len = pfxLen ∧ ∃ seq ∈ dataSet, pfxLen ≤ seq.len := by
  obtain ⟨⟨key, present⟩, _⟩ := mem_findFreqPrefixes.mp member
  rw [contents_prefixMap] at present
  cases subs : (dataSet.flatMap fun seq => seq.findSubPatterns pfxLen).filter
      fun sub => sub.toString = key with
  | nil =>
      rw [subs] at present
      cases present
  | cons sub others =>
      rw [subs] at present
      cases present
      have own : sub ∈ sub :: others := List.mem_cons_self
      rw [← subs] at own
      obtain ⟨seq, inside, part⟩ := List.mem_flatMap.mp (List.mem_filter.mp own).1
      obtain ⟨infix_, len, _⟩ := seq.findSubPatterns_sound some part
      have short := infix_.length_le
      rw [Pattern.length_elements, Pattern.length_elements, len] at short
      exact ⟨len, seq, inside, short⟩

/-- Every sequence that has a part adds to its number. -/
theorem support_le_count (dataSet : List Pattern) {part : List Int} (some : part ≠ []) :
    support dataSet part ≤
      ((dataSet.flatMap fun seq => seq.findSubPatterns part.length).filter
        fun sub => sub.toString = Pattern.print part).length := by
  rw [← List.countP_eq_length_filter]
  induction dataSet with
  | nil => exact Nat.zero_le _
  | cons seq dataSet induction =>
      rw [support, List.countP_cons, List.flatMap_cons, List.countP_append, Nat.add_comm]
      apply Nat.add_le_add _ induction
      split
      next inside =>
        rw [decide_eq_true_iff] at inside
        obtain ⟨sub, member, same⟩ := seq.findSubPatterns_complete inside some
        apply List.countP_pos_iff.mpr
        refine ⟨sub, member, ?_⟩
        rw [decide_eq_true_iff, Pattern.toString, same]
      next => exact Nat.zero_le _

/-- A part that enough sequences have is found. -/
theorem findFreqPrefixes_complete (this : PrefixSpan) {dataSet : List Pattern}
    {part : List Int} (some : part ≠ []) (frequent : this.minSupport ≤ support dataSet part)
    (present : 0 < support dataSet part) :
    ∃ pattern ∈ this.findFreqPrefixes dataSet part.length, pattern.elements = part := by
  have enough := support_le_count dataSet some
  have found := contents_prefixMap dataSet part.length (Pattern.print part)
  cases subs : (dataSet.flatMap fun seq => seq.findSubPatterns part.length).filter
      fun sub => sub.toString = Pattern.print part with
  | nil =>
      rw [subs, List.length_nil] at enough
      omega
  | cons sub others =>
      rw [subs] at found enough
      have own : sub ∈ sub :: others := List.mem_cons_self
      rw [← subs] at own
      obtain ⟨inside, printed⟩ := List.mem_filter.mp own
      obtain ⟨seq, _, piece⟩ := List.mem_flatMap.mp inside
      obtain ⟨_, len, freq⟩ := seq.findSubPatterns_sound (List.length_pos_iff.mpr some) piece
      refine ⟨_, mem_findFreqPrefixes.mpr ⟨⟨_, found⟩, ?_⟩, ?_⟩
      · rw [List.length_cons] at enough
        change this.minSupport ≤ sub.freq + others.length
        omega
      · apply Pattern.print_injective
        · rw [Pattern.length_elements]
          exact len
        · exact of_decide_eq_true printed

/-! ### Growing -/

/-- The elements that are counted are those behind the pattern at the beginning. -/
theorem grown_iff (seq pattern : Pattern) (item : Int) :
    (if seq.len ≤ pattern.len then none
      else if seq.isEqualN pattern pattern.len && pattern.len + 1 ≤ seq.len then
        seq.elementAt pattern.len
      else none) = some item ↔ pattern.elements ++ [item] <+: seq.elements := by
  have whole : pattern.elements.take pattern.len = pattern.elements :=
    List.take_of_length_le (Nat.le_of_eq pattern.length_elements)
  rw [List.prefix_iff_eq_take, List.length_append, Pattern.length_elements,
    List.length_singleton]
  by_cases short : seq.len ≤ pattern.len
  · rw [if_pos short]
    constructor
    · intro none
      cases none
    · intro same
      have lengths := congrArg List.length same
      simp only [List.length_append, List.length_take, Pattern.length_elements,
        List.length_singleton] at lengths
      omega
  · have longer : pattern.len < seq.len := Nat.not_le.mp short
    have fits : pattern.len < seq.elements.length := by simpa using longer
    rw [if_neg short, List.take_add_one, List.getElem?_eq_getElem fits,
      Pattern.elementAt_eq seq longer, List.getElem?_eq_getElem fits, Option.toList_some]
    have equalN : (seq.isEqualN pattern pattern.len && decide (pattern.len + 1 ≤ seq.len)) ↔
        seq.elements.take pattern.len = pattern.elements := by
      rw [Bool.and_eq_true, Pattern.isEqualN_iff, whole, decide_eq_true_iff]
      constructor
      · intro equal
        exact equal.1.2.2
      · intro equal
        exact ⟨⟨by omega, Nat.le_refl _, equal⟩, longer⟩
    constructor
    · intro found
      split at found
      next equal =>
        rw [equalN.mp equal, Option.some.inj found]
      next => cases found
    · intro same
      obtain ⟨start, last⟩ := List.append_inj' same rfl
      rw [if_pos (equalN.mpr start.symm), (List.cons.inj last).1]

theorem count_grownItems (dataSet : List Pattern) (pattern : Pattern) (item : Int) :
    (grownItems dataSet pattern (pattern.len + 1)).count item =
      beginnings dataSet (pattern.elements ++ [item]) := by
  rw [grownItems, List.count_filterMap, beginnings]
  apply List.countP_congr
  intro seq _
  rw [beq_iff_eq, Nat.add_sub_cancel, grown_iff, decide_eq_true_iff]

theorem increment_iterate (times start : Nat) : (· + 1)^[times] start = start + times := by
  induction times generalizing start with
  | zero => rfl
  | succ times induction =>
      rw [Function.iterate_succ_apply, induction, Nat.add_assoc, Nat.add_comm 1]

/-- The patterns that are grown, with the numbers of sequences that begin with them. -/
theorem mem_growPattern {this : PrefixSpan} {dataSet : List Pattern} {pattern grown : Pattern} :
    grown ∈ this.growPattern dataSet pattern (pattern.len + 1) ↔
      ∃ item, 0 < beginnings dataSet (pattern.elements ++ [item]) ∧
        grown = (pattern.concat item).copy (beginnings dataSet (pattern.elements ++ [item])) := by
  have counted : ∀ item count,
      FiniteMap.contents ((grownItems dataSet pattern (pattern.len + 1)).foldl
        (FiniteMap.group id (fun _ => 1) (· + 1)) ∅) item = some count ↔
      0 < beginnings dataSet (pattern.elements ++ [item]) ∧
        count = beginnings dataSet (pattern.elements ++ [item]) := by
    intro item count
    rw [FiniteMap.contents_foldl_group, ← count_grownItems, List.count_eq_countP,
      List.countP_eq_length_filter]
    have same : ((grownItems dataSet pattern (pattern.len + 1)).filter fun element =>
        id element = item) =
          (grownItems dataSet pattern (pattern.len + 1)).filter (· == item) := rfl
    rw [same]
    cases (grownItems dataSet pattern (pattern.len + 1)).filter (· == item) with
    | nil => simp
    | cons first others =>
        dsimp only
        rw [increment_iterate, List.length_cons, Nat.add_comm 1, Option.some.injEq, eq_comm]
        exact ⟨fun same => ⟨Nat.succ_pos _, same⟩, fun same => same.2⟩
  rw [growPattern, List.mem_map]
  constructor
  · intro found
    obtain ⟨entry, member, rfl⟩ := found
    have present := FiniteMap.mem_contents_iff.mpr ((this.itemOrder.perm _).mem_iff.mp member)
    obtain ⟨some, count⟩ := (counted _ _).mp present
    exact ⟨entry.1, some, by rw [count]⟩
  · intro found
    obtain ⟨item, some, rfl⟩ := found
    have present := (counted item _).mpr ⟨some, rfl⟩
    exact ⟨⟨item, _⟩, (this.itemOrder.perm _).mem_iff.mpr (FiniteMap.mem_contents_iff.mp present),
      rfl⟩

theorem growPattern_sound {this : PrefixSpan} {dataSet : List Pattern}
    {pattern grown : Pattern}
    (member : grown ∈ this.growPattern dataSet pattern (pattern.len + 1)) :
    0 < grown.freq ∧ grown.freq = beginnings dataSet grown.elements ∧
      ∃ item, grown.elements = pattern.elements ++ [item] := by
  obtain ⟨item, present, rfl⟩ := mem_growPattern.mp member
  rw [Pattern.elements_copy, Pattern.elements_concat, Pattern.copy, if_pos present]
  exact ⟨present, rfl, item, rfl⟩

theorem growPattern_complete (this : PrefixSpan) {dataSet : List Pattern} {pattern : Pattern}
    {item : Int} (present : 0 < beginnings dataSet (pattern.elements ++ [item])) :
    ∃ grown ∈ this.growPattern dataSet pattern (pattern.len + 1),
      grown.elements = pattern.elements ++ [item] := by
  refine ⟨_, mem_growPattern.mpr ⟨item, present, rfl⟩, ?_⟩
  rw [Pattern.elements_copy, Pattern.elements_concat]

/-! ### Mining -/

theorem of_collect {α β : Type} {found : α → Option (List β)} {elements : List α}
    {all : List β} (collected : collect found elements = some all) :
    (∀ element ∈ elements, (found element).isSome) ∧
      ∀ result, result ∈ all ↔
        ∃ element ∈ elements, ∃ here, found element = some here ∧ result ∈ here := by
  induction elements generalizing all with
  | nil =>
      cases collected
      simp
  | cons element others induction =>
      obtain ⟨here, now, collected⟩ := Option.bind_eq_some_iff.mp collected
      obtain ⟨later, rest, same⟩ := Option.bind_eq_some_iff.mp collected
      cases same
      obtain ⟨every, members⟩ := induction rest
      constructor
      · rw [List.forall_mem_cons, now]
        exact ⟨rfl, every⟩
      · intro result
        rw [List.mem_append, members, List.exists_mem_cons_iff]
        simp [now]

theorem collect_isSome {α β : Type} {found : α → Option (List β)} {elements : List α}
    (all : ∀ element ∈ elements, (found element).isSome) : (collect found elements).isSome := by
  induction elements with
  | nil => rfl
  | cons element others induction =>
      obtain ⟨here, now⟩ := Option.isSome_iff_exists.mp (all element List.mem_cons_self)
      obtain ⟨later, rest⟩ := Option.isSome_iff_exists.mp
        (induction fun other member => all other (List.mem_cons_of_mem _ member))
      rw [collect, now, rest]
      rfl

/-- The calls are not nested deeper than the sequences are long. -/
theorem mineFreqPatterns_isSome (this : PrefixSpan) (depth : Nat) (dataSet : List Pattern)
    (pfxLen : Nat) (some : 0 < depth) (short : ∀ seq ∈ dataSet, seq.len < pfxLen + depth) :
    (this.mineFreqPatterns depth dataSet pfxLen).isSome := by
  induction depth generalizing dataSet pfxLen with
  | zero => exact absurd some (Nat.lt_irrefl 0)
  | succ depth induction =>
      rw [mineFreqPatterns]
      apply collect_isSome
      intro pfx member
      obtain ⟨len, seq, inside, longer⟩ :=
        len_of_mem_findFreqPrefixes (Nat.succ_pos pfxLen) member
      apply collect_isSome
      intro pattern _
      split
      · rw [Option.isSome_map]
        have bounded := short seq inside
        apply induction
        · omega
        · intro pseq projected
          obtain ⟨original, among, ends, _⟩ :=
            of_mem_projectedPatternDB (by omega) projected
          have less := ends.length_le
          have most := short original among
          rw [Pattern.length_elements, Pattern.length_elements] at less
          omega
      · rfl

/-- A call for every pattern that is grown and frequent returns, and what one call finds are
these patterns and what their calls find. -/
theorem of_mineFreqPatterns {this : PrefixSpan} {depth : Nat} {dataSet mined : List Pattern}
    {pfxLen : Nat} (returned : this.mineFreqPatterns (depth + 1) dataSet pfxLen = some mined) :
    (∀ pfx ∈ this.findFreqPrefixes dataSet (pfxLen + 1),
      ∀ pattern ∈ this.growPattern (projectedPatternDB dataSet pfx) pfx (pfxLen + 2),
        this.minSupport ≤ pattern.freq →
          (this.mineFreqPatterns depth (projectedPatternDB dataSet pfx) (pfxLen + 1)).isSome) ∧
      ∀ result, result ∈ mined ↔ ∃ pfx ∈ this.findFreqPrefixes dataSet (pfxLen + 1),
        ∃ pattern ∈ this.growPattern (projectedPatternDB dataSet pfx) pfx (pfxLen + 2),
          this.minSupport ≤ pattern.freq ∧ ∃ rest,
            this.mineFreqPatterns depth (projectedPatternDB dataSet pfx) (pfxLen + 1) =
              some rest ∧ (result = pattern ∨ result ∈ rest) := by
  rw [mineFreqPatterns] at returned
  obtain ⟨every, members⟩ := of_collect returned
  constructor
  · intro pfx member pattern growing frequent
    obtain ⟨here, inner⟩ := Option.isSome_iff_exists.mp (every pfx member)
    have call := (of_collect inner).1 pattern growing
    rw [if_pos frequent, Option.isSome_map] at call
    exact call
  · intro result
    rw [members]
    apply exists_congr
    intro pfx
    apply and_congr_right
    intro member
    obtain ⟨here, inner⟩ := Option.isSome_iff_exists.mp (every pfx member)
    dsimp only at inner ⊢
    obtain ⟨_, grown⟩ := of_collect inner
    have own : (∃ other, some here = some other ∧ result ∈ other) ↔ result ∈ here := by simp
    rw [inner, own, grown]
    apply exists_congr
    intro pattern
    apply and_congr_right
    intro _
    by_cases frequent : this.minSupport ≤ pattern.freq <;> simp [frequent]

/-- A pattern that is found has the support that it claims at least. -/
theorem mineFreqPatterns_sound (this : PrefixSpan) (depth : Nat) (dataSet : List Pattern)
    (pfxLen : Nat) {mined : List Pattern}
    (returned : this.mineFreqPatterns depth dataSet pfxLen = some mined) {pattern : Pattern}
    (member : pattern ∈ mined) :
    this.minSupport ≤ pattern.freq ∧ 0 < pattern.freq ∧
      pattern.freq ≤ support dataSet pattern.elements ∧ pfxLen + 2 ≤ pattern.len := by
  induction depth generalizing dataSet pfxLen mined with
  | zero => cases returned
  | succ depth induction =>
      obtain ⟨pfx, frequent, grown, growing, enough, rest, deeper, either⟩ :=
        ((of_mineFreqPatterns returned).2 pattern).mp member
      obtain ⟨len, _⟩ := len_of_mem_findFreqPrefixes (Nat.succ_pos pfxLen) frequent
      have some : 0 < pfx.len := by omega
      rcases either with rfl | later
      · have next : pfxLen + 2 = pfx.len + 1 := by omega
        rw [next] at growing
        obtain ⟨positive, freq, item, elements⟩ := growPattern_sound growing
        refine ⟨enough, positive, ?_, ?_⟩
        · rw [freq]
          apply Nat.le_trans (beginnings_le_support _ _)
          apply support_projectedPatternDB_le dataSet some
          simp [elements]
        · rw [← Pattern.length_elements, elements, List.length_append, Pattern.length_elements,
            next]
          exact Nat.le_refl _
      · obtain ⟨minimal, positive, supported, longer⟩ := induction _ _ deeper later
        refine ⟨minimal, positive, Nat.le_trans supported ?_, by omega⟩
        apply support_projectedPatternDB_le dataSet some
        intro empty
        rw [← Pattern.isEmpty_iff, Pattern.isEmpty, beq_iff_eq] at empty
        omega

/-- A frequent sequence is reached from any call on its way. -/
theorem mineFreqPatterns_complete (this : PrefixSpan) (depth : Nat) (dataSet : List Pattern)
    (pfxLen : Nat) {mined : List Pattern}
    (returned : this.mineFreqPatterns depth dataSet pfxLen = some mined)
    (nodup : ∀ seq ∈ dataSet, seq.elements.Nodup) {sequence : List Int}
    (longer : pfxLen + 2 ≤ sequence.length)
    (frequent : this.minSupport ≤ support dataSet sequence)
    (present : 0 < support dataSet sequence) :
    ∃ pattern ∈ mined, pattern.elements = sequence ∧
      pattern.freq = support dataSet sequence := by
  induction depth generalizing dataSet pfxLen mined with
  | zero => cases returned
  | succ depth induction =>
      have nonempty : sequence.take (pfxLen + 1) ≠ [] := by
        rw [← List.length_pos_iff, List.length_take]
        omega
      have length : (sequence.take (pfxLen + 1)).length = pfxLen + 1 := by
        rw [List.length_take]
        omega
      have monotone := support_mono dataSet (List.take_prefix (pfxLen + 1) sequence).isInfix
      obtain ⟨pfx, found, elements⟩ := this.findFreqPrefixes_complete nonempty
        (Nat.le_trans frequent monotone) (Nat.lt_of_lt_of_le present monotone)
      rw [length] at found
      have len : pfx.len = pfxLen + 1 := by
        rw [← Pattern.length_elements, elements, length]
      have some : 0 < pfx.len := by omega
      have begins : pfx.elements <+: sequence := by
        rw [elements]
        exact List.take_prefix _ _
      have kept := support_projectedPatternDB some nodup begins
      have start := beginnings_projectedPatternDB some nodup begins
      -- the pattern that is grown from the part, on the way to the sequence
      have fits : pfxLen + 1 < sequence.length := longer
      have taken : sequence.take (pfxLen + 2) = pfx.elements ++ [sequence[pfxLen + 1]] := by
        rw [List.take_add_one, elements, List.getElem?_eq_getElem fits, Option.toList_some]
      have enough : support dataSet sequence ≤
          beginnings (projectedPatternDB dataSet pfx)
            (pfx.elements ++ [sequence[pfxLen + 1]]) := by
        rw [← start, ← taken]
        exact beginnings_mono _ (List.take_prefix _ _)
      obtain ⟨grown, growing, same⟩ :=
        this.growPattern_complete (Nat.lt_of_lt_of_le present enough)
      have freq := (growPattern_sound growing).2.1
      rw [← same, ← freq] at enough
      rw [len] at growing
      have minimal := Nat.le_trans frequent enough
      obtain ⟨calls, members⟩ := of_mineFreqPatterns returned
      obtain ⟨rest, deeper⟩ := Option.isSome_iff_exists.mp (calls pfx found grown growing minimal)
      by_cases last : sequence.length = pfxLen + 2
      · have whole : grown.elements = sequence := by
          rw [same, ← taken, ← last, List.take_length]
        refine ⟨grown, (members grown).mpr ⟨pfx, found, grown, growing, minimal, rest, deeper,
          .inl rfl⟩, whole, ?_⟩
        rw [freq, whole, start]
      · have distinct : ∀ seq ∈ projectedPatternDB dataSet pfx, seq.elements.Nodup := by
          intro pseq member
          obtain ⟨seq, original, ends, _⟩ := of_mem_projectedPatternDB some member
          exact (nodup seq original).sublist ends.sublist
        rw [← kept] at frequent present
        obtain ⟨pattern, member, same, supported⟩ :=
          induction _ _ deeper distinct (by omega) frequent present
        refine ⟨pattern, (members pattern).mpr ⟨pfx, found, grown, growing, minimal, rest, deeper,
          .inr member⟩, same, ?_⟩
        rw [supported, kept]

/-! ### Suppressing -/

theorem suppressed_iff {dataSet : List Pattern} {p1 : Nat} {pattern : Pattern} :
    suppressed dataSet p1 pattern ↔ ∃ other p2, dataSet[p2]? = some other ∧ p2 ≠ p1 ∧
      (pattern.elements = other.elements ∧ p1 < p2 ∨
        pattern.elements <:+: other.elements ∧ pattern.len < other.len) := by
  rw [suppressed, List.any_eq_true]
  simp only [Prod.exists, List.mk_mem_zipIdx_iff_getElem?, Bool.and_eq_true, Bool.or_eq_true,
    decide_eq_true_eq, Pattern.equals_iff, Pattern.contains_iff]

/-- The last element of a list with a value. -/
theorem exists_last {α β : Type} {value : α → β} {list : List α} {wanted : β}
    (member : wanted ∈ list.map value) :
    ∃ before last after, list = before ++ last :: after ∧ value last = wanted ∧
      ∀ other ∈ after, value other ≠ wanted := by
  induction list with
  | nil => cases member
  | cons first others induction =>
      by_cases later : wanted ∈ others.map value
      · obtain ⟨before, last, after, split, same, none⟩ := induction later
        exact ⟨first :: before, last, after, by rw [split, List.cons_append], same, none⟩
      · have here := (List.mem_cons.mp member).resolve_right later
        refine ⟨[], first, others, rfl, here.symm, ?_⟩
        intro other inside same
        exact later (List.mem_map.mpr ⟨other, inside, same⟩)

/-- The sequences that are part of no other are left. -/
theorem mem_suppressSubPatterns (dataSet : List Pattern) (sequence : List Int) :
    sequence ∈ (suppressSubPatterns dataSet).map Pattern.elements ↔
      sequence ∈ dataSet.map Pattern.elements ∧
        ∀ other ∈ dataSet, sequence <:+: other.elements → other.elements = sequence := by
  constructor
  · intro left
    obtain ⟨pattern, kept, rfl⟩ := List.mem_map.mp left
    obtain ⟨⟨_, p1⟩, entry, rfl⟩ := List.mem_map.mp kept
    obtain ⟨inside, free⟩ := List.mem_filter.mp entry
    rw [List.mk_mem_zipIdx_iff_getElem?] at inside
    rw [Bool.not_eq_true', ← Bool.not_eq_true, suppressed_iff] at free
    refine ⟨List.mem_map_of_mem (List.mem_of_getElem? inside), ?_⟩
    intro other member part
    obtain ⟨p2, there⟩ := List.getElem?_of_mem member
    by_cases same : p2 = p1
    · rw [same, inside] at there
      rw [Option.some.inj there]
    · apply Eq.symm
      apply part.eq_of_length_le
      rw [Pattern.length_elements, Pattern.length_elements]
      by_contra longer
      exact free ⟨other, p2, there, same, .inr ⟨part, Nat.not_le.mp longer⟩⟩
  · intro kept
    obtain ⟨present, maximal⟩ := kept
    obtain ⟨before, pattern, after, split, same, last⟩ := exists_last present
    have here : dataSet[before.length]? = some pattern := by
      rw [split, List.getElem?_append_right (Nat.le_refl _), Nat.sub_self]
      rfl
    refine List.mem_map.mpr ⟨pattern, List.mem_map.mpr ⟨(pattern, before.length), ?_, rfl⟩, same⟩
    apply List.mem_filter.mpr
    rw [List.mk_mem_zipIdx_iff_getElem?, Bool.not_eq_true', ← Bool.not_eq_true, suppressed_iff]
    refine ⟨here, ?_⟩
    intro suppressing
    obtain ⟨other, p2, there, _, later | longer⟩ := suppressing
    · obtain ⟨equal, behind⟩ := later
      apply last other
      · rw [split, List.getElem?_append_right (Nat.le_of_lt behind)] at there
        obtain ⟨places, next⟩ : ∃ places, p2 - before.length = places + 1 :=
          ⟨p2 - before.length - 1, by omega⟩
        rw [next, List.getElem?_cons_succ] at there
        exact List.mem_of_getElem? there
      · rw [← equal, same]
    · obtain ⟨part, more⟩ := longer
      rw [same] at part
      change pattern.len < other.len at more
      have equal := maximal other (List.mem_of_getElem? there) part
      have lengths := congrArg List.length (equal.trans same.symm)
      rw [Pattern.length_elements, Pattern.length_elements] at lengths
      omega

/-- Every sequence is left once. -/
theorem suppressSubPatterns_nodup (dataSet : List Pattern) :
    ((suppressSubPatterns dataSet).map Pattern.elements).Nodup := by
  have increasing : dataSet.zipIdx.Pairwise fun first second => first.2 < second.2 := by
    rw [← List.pairwise_map (f := Prod.snd) (R := (· < ·)), List.zipIdx_map_snd]
    exact List.pairwise_lt_range'
  rw [suppressSubPatterns, List.map_map, List.Nodup, List.pairwise_map]
  apply (increasing.sublist List.filter_sublist).imp_of_mem
  intro first second one two less same
  obtain ⟨_, free⟩ := List.mem_filter.mp one
  obtain ⟨inside, _⟩ := List.mem_filter.mp two
  rw [Bool.not_eq_true', ← Bool.not_eq_true, suppressed_iff] at free
  have there := List.mk_mem_zipIdx_iff_getElem?.mp inside
  exact free ⟨second.1, second.2, there, Nat.ne_of_gt less, .inl ⟨same, less⟩⟩

/-- The length of the longest sequence and one more. -/
def depth (dataSet : List Pattern) : Nat := (dataSet.map Pattern.len).foldr max 0 + 1

theorem len_lt_depth {dataSet : List Pattern} {seq : Pattern} (member : seq ∈ dataSet) :
    seq.len < depth dataSet := by
  induction dataSet with
  | nil => cases member
  | cons first others induction =>
      rw [depth, List.map_cons, List.foldr_cons]
      rcases List.mem_cons.mp member with rfl | later
      · omega
      · have shorter := induction later
        rw [depth] at shorter
        omega

/-- The calls of `mineFreqPatterns` come to an end.  Every pattern that is found is a part of
at least as many sequences as its frequency says, which is not below the least support.  If
no sequence has an element twice, every part of two elements or more that enough sequences
have is found, with its support as the frequency.  Of the patterns that were found,
`suppressSubPatterns` leaves each that is part of no other, once. -/
theorem mineFreqPatterns_exact (this : PrefixSpan) (dataSet : List Pattern) :
    ∃ mined, this.mineFreqPatterns (depth dataSet) dataSet 0 = some mined ∧
      (∀ pattern ∈ mined, this.minSupport ≤ pattern.freq ∧ 0 < pattern.freq ∧
        pattern.freq ≤ support dataSet pattern.elements ∧ 2 ≤ pattern.len) ∧
      ((∀ seq ∈ dataSet, seq.elements.Nodup) → ∀ sequence, 2 ≤ sequence.length →
        this.minSupport ≤ support dataSet sequence → 0 < support dataSet sequence →
          ∃ pattern ∈ mined, pattern.elements = sequence ∧
            pattern.freq = support dataSet sequence) ∧
      (∀ sequence, sequence ∈ (suppressSubPatterns mined).map Pattern.elements ↔
        sequence ∈ mined.map Pattern.elements ∧
          ∀ other ∈ mined, sequence <:+: other.elements → other.elements = sequence) ∧
      ((suppressSubPatterns mined).map Pattern.elements).Nodup := by
  have returns := this.mineFreqPatterns_isSome (depth dataSet) dataSet 0 (Nat.succ_pos _)
    fun seq member => by
      rw [Nat.zero_add]
      exact len_lt_depth member
  obtain ⟨mined, returned⟩ := Option.isSome_iff_exists.mp returns
  refine ⟨mined, returned, ?_, ?_, mem_suppressSubPatterns mined,
    suppressSubPatterns_nodup mined⟩
  · intro pattern member
    exact this.mineFreqPatterns_sound _ dataSet 0 returned member
  · intro nodup sequence longer frequent present
    exact this.mineFreqPatterns_complete _ dataSet 0 returned nodup longer frequent present

/-- A user who returned to a landmark: the way from there to the last landmark is not found,
though two users went it. -/
example : [1, 3] ∉ (((⟨2, .keep, .keep⟩ : PrefixSpan).mineFreqPatterns 5
    [.ofVector [1, 2, 1, 3] 1, .ofVector [1, 2, 1, 3] 1] 0).getD []).map Pattern.elements := by
  decide +kernel

end PrefixSpan

end PipeFabric.FreqTrajectories
