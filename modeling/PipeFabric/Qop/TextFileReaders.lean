import Mathlib.Algebra.Group.Nat.Defs
import PipeFabric.Qop.TextFileSource

/-!
# What the readers of text files publish

The lines of a file are what `getline` makes of it: a line ends at a newline or at the
end of the file.  Each of the three readers is compared with them.  The readers count
what they publish, so everything is said about the bytes that are left after `ntuples`
lines, and follows the separation of these bytes into a line and a rest.
-/

namespace PipeFabric.TextFileSource

open Splitting

/-! ## The wanted lines -/

/-- At most `maxTuples` lines; 0 is no limit. -/
def limited (maxTuples : Nat) (lines : List (List UInt8)) : List (List UInt8) :=
  if maxTuples = 0 then lines else lines.take maxTuples

/-- The lines that should be published. -/
def wanted (maxTuples : Nat) (content : List UInt8) : List (List UInt8) :=
  limited maxTuples (splitLines newline content)

/-- The lines that are published after `ntuples` lines until the limit is reached. -/
def upTo (maxTuples : Nat) : Nat → List (List UInt8) → List (List UInt8)
  | _, [] => []
  | ntuples, line :: lines =>
      line :: if ntuples + 1 = maxTuples then [] else upTo maxTuples (ntuples + 1) lines

/-- The limit is not reached after `ntuples` lines. -/
def Below (maxTuples ntuples : Nat) : Prop := maxTuples = 0 ∨ ntuples < maxTuples

theorem Below.succ {maxTuples ntuples : Nat} (below : Below maxTuples ntuples)
    (other : ntuples + 1 ≠ maxTuples) : Below maxTuples (ntuples + 1) := by
  unfold Below at below ⊢
  omega

theorem upTo_eq {maxTuples ntuples : Nat} (below : Below maxTuples ntuples)
    (lines : List (List UInt8)) :
    upTo maxTuples ntuples lines =
      if maxTuples = 0 then lines else lines.take (maxTuples - ntuples) := by
  induction lines generalizing ntuples with
  | nil => simp [upTo]
  | cons line lines induction =>
      rw [upTo]
      by_cases last : ntuples + 1 = maxTuples
      · have one : maxTuples - ntuples = 1 := by omega
        rw [if_pos last, if_neg (by omega), one, List.take_succ_cons, List.take_zero]
      · rw [if_neg last, induction (below.succ last)]
        split
        · rfl
        · next limit =>
            have more : maxTuples - ntuples = maxTuples - (ntuples + 1) + 1 := by
              unfold Below at below
              omega
            rw [more, List.take_succ_cons]

theorem wanted_eq_upTo (maxTuples : Nat) (content : List UInt8) :
    wanted maxTuples content = upTo maxTuples 0 (splitLines newline content) := by
  have below : Below maxTuples 0 := by
    unfold Below
    omega
  rw [upTo_eq below]
  rfl

/-- The limit is reached, after `ntuples` lines, by the lines that a newline ends. -/
def Reached (maxTuples ntuples : Nat) (bytes : List UInt8) : Prop :=
  maxTuples ≠ 0 ∧ maxTuples ≤ ntuples + bytes.count newline

/-- Every line that is wanted is ended by a newline. -/
def Ended (maxTuples ntuples : Nat) (bytes : List UInt8) : Prop :=
  Reached maxTuples ntuples bytes ∨ ∀ last, bytes.getLast? = some last → last = newline

theorem reached_append (maxTuples ntuples : Nat) (bytes rest : List UInt8) :
    Reached maxTuples ntuples (bytes ++ rest) ↔
      Reached maxTuples (ntuples + bytes.count newline) rest := by
  unfold Reached
  rw [List.count_append, Nat.add_assoc]

theorem reached_more {part : List UInt8} (free : newline ∉ part)
    (maxTuples ntuples : Nat) (rest : List UInt8) :
    Reached maxTuples ntuples (part ++ newline :: rest) ↔
      Reached maxTuples (ntuples + 1) rest := by
  rw [reached_append, List.count_eq_zero_of_not_mem free]
  unfold Reached
  rw [List.count_cons_self]
  constructor
  · intro both
    exact ⟨both.1, by omega⟩
  · intro both
    exact ⟨both.1, by omega⟩

theorem reached_of_last {maxTuples ntuples : Nat} (last : ntuples + 1 = maxTuples)
    (rest : List UInt8) : Reached maxTuples (ntuples + 1) rest := by
  unfold Reached
  omega

theorem Below.not_reached {maxTuples ntuples : Nat} (below : Below maxTuples ntuples)
    {part : List UInt8} (free : newline ∉ part) : ¬ Reached maxTuples ntuples part := by
  unfold Reached
  unfold Below at below
  rw [List.count_eq_zero_of_not_mem free]
  omega

theorem ended_last {maxTuples ntuples : Nat} (below : Below maxTuples ntuples)
    {part : List UInt8} (free : newline ∉ part) :
    Ended maxTuples ntuples part ↔ part = [] := by
  constructor
  · intro ended
    rcases ended with reached | newlineLast
    · exact absurd reached (below.not_reached free)
    · cases last : part.getLast? with
      | none => exact List.getLast?_eq_none_iff.mp last
      | some c =>
          have inside := List.mem_of_getLast? last
          rw [newlineLast c last] at inside
          exact absurd inside free
  · rintro rfl
    right
    intro last none
    cases none

theorem ended_more {part : List UInt8} (free : newline ∉ part)
    (maxTuples ntuples : Nat) (rest : List UInt8) :
    Ended maxTuples ntuples (part ++ newline :: rest) ↔
      Ended maxTuples (ntuples + 1) rest := by
  unfold Ended
  rw [reached_more free]
  cases rest with
  | nil => simp
  | cons c rest => rw [List.getLast?_append, List.getLast?_cons_cons]; simp

theorem ended_of_last {maxTuples ntuples : Nat} (last : ntuples + 1 = maxTuples)
    (rest : List UInt8) : Ended maxTuples (ntuples + 1) rest :=
  .inl (reached_of_last last rest)

theorem upTo_last {maxTuples ntuples : Nat} {part : List UInt8} (free : newline ∉ part) :
    upTo maxTuples ntuples (splitLines newline part) =
      if part = [] then [] else [part] := by
  rw [splitLines_last free]
  split
  · rfl
  · rw [upTo, upTo]
    split
    · rfl
    · rfl

theorem upTo_more {maxTuples ntuples : Nat} {part : List UInt8} (free : newline ∉ part)
    (rest : List UInt8) :
    upTo maxTuples ntuples (splitLines newline (part ++ newline :: rest)) =
      part :: if ntuples + 1 = maxTuples then []
        else upTo maxTuples (ntuples + 1) (splitLines newline rest) := by
  rw [splitLines_more free, upTo]

/-! ## The decompressed stream -/

theorem compressedLoop_eq {maxTuples : Nat} (bytes : List UInt8) :
    ∀ rounds ntuples, bytes.length < rounds →
      compressedLoop maxTuples rounds ntuples bytes =
        some (upTo maxTuples ntuples (splitLines newline bytes)) := by
  induction bytes using Splitting.induction newline with
  | last part free =>
      intro rounds ntuples enough
      rw [upTo_last free]
      cases rounds with
      | zero => omega
      | succ rounds =>
          cases part with
          | nil => rfl
          | cons c part =>
              have atEnd : compressedLoop maxTuples rounds (ntuples + 1) [] = some [] := by
                cases rounds with
                | zero => simp only [List.length_cons] at enough; omega
                | succ rounds => rfl
              rw [compressedLoop, getline, memchr_last free]
              dsimp only
              rw [atEnd, if_neg (List.cons_ne_nil c part)]
              split
              · rfl
              · rfl
  | more part rest free induction =>
      intro rounds ntuples enough
      rw [upTo_more free]
      cases rounds with
      | zero => omega
      | succ rounds =>
          have line : getline (part ++ newline :: rest) = some (part, rest) := by
            have found := memchr_more free rest
            cases whole : part ++ newline :: rest with
            | nil => simp at whole
            | cons c others =>
                rw [whole] at found
                rw [getline, found, ← whole]
                simp
          have left : rest.length < rounds := by
            simp only [List.length_append, List.length_cons] at enough
            omega
          rw [compressedLoop, line]
          dsimp only
          rw [induction rounds (ntuples + 1) left]
          split
          · rfl
          · rfl

/-- `readCompressedFile` publishes the lines of what the decompressor delivers. -/
theorem readCompressedFile_eq (maxTuples : Nat) (content : List UInt8) :
    readCompressedFile maxTuples content = some (wanted maxTuples content) := by
  rw [wanted_eq_upTo]
  exact compressedLoop_eq content _ 0 (Nat.lt_succ_self _)

/-! ## The memory-mapped file -/

theorem mappedLoop_eq_iff {maxTuples : Nat} (padding : Nat) (bytes : List UInt8) :
    ∀ rounds ntuples, Below maxTuples ntuples → bytes.length < rounds →
      (∀ line ∈ splitLines newline bytes, line.length < MAX_TUPLE_SIZE) →
      (mappedLoop maxTuples rounds ntuples (bytes ++ List.replicate padding 0) =
          some (upTo maxTuples ntuples (splitLines newline bytes)) ↔
        Ended maxTuples ntuples bytes ∧
          (∀ line ∈ upTo maxTuples ntuples (splitLines newline bytes), 0 ∉ line) ∧
          (Reached maxTuples ntuples bytes ∨ padding ≠ 0)) := by
  induction bytes using Splitting.induction newline with
  | last part free =>
      intro rounds ntuples below enough _
      rw [upTo_last free, ended_last below free]
      have notReached := below.not_reached free
      cases rounds with
      | zero => omega
      | succ rounds =>
          rw [mappedLoop]
          by_cases zero : 0 ∈ part
          · have nonempty : part ≠ [] := List.ne_nil_of_mem zero
            rw [strchr_zero free zero, if_neg nonempty]
            simp [nonempty]
          · rw [strchr_append free zero]
            cases padding with
            | zero => simp [strchr, notReached]
            | succ padding =>
                by_cases empty : part = []
                · simp [strchr, List.replicate_succ, empty, newline]
                · simp [strchr, List.replicate_succ, empty, newline]
  | more part rest free induction =>
      intro rounds ntuples below enough short
      rw [splitLines_more free] at short
      obtain ⟨partShort, restShort⟩ := List.forall_mem_cons.mp short
      rw [upTo_more free, ended_more free, reached_more free, List.forall_mem_cons,
        List.append_assoc, List.cons_append]
      cases rounds with
      | zero => omega
      | succ rounds =>
          rw [mappedLoop]
          by_cases zero : 0 ∈ part
          · rw [strchr_zero free zero]
            simp [zero]
          · have left : rest.length < rounds := by
              simp only [List.length_append, List.length_cons] at enough
              omega
            have fits : ¬ MAX_TUPLE_SIZE < part.length + 1 := by omega
            have behind : (part ++ newline :: (rest ++ List.replicate padding 0)).drop
                (part.length + 1) = rest ++ List.replicate padding 0 := by
              rw [← List.drop_drop, List.drop_left, List.drop_one, List.tail_cons]
            rw [strchr_more free zero, Option.bind_some]
            dsimp only
            rw [if_neg fits, List.take_left, behind]
            by_cases last : ntuples + 1 = maxTuples
            · rw [if_pos last, if_pos last]
              simp [zero, ended_of_last last, reached_of_last last]
            · have others :=
                induction rounds (ntuples + 1) (below.succ last) left restShort
              rw [if_neg last, if_neg last]
              simp [zero, others]

theorem padding_ne_zero_iff {page : Nat} (positive : 0 < page) (size : Nat) :
    (page - size % page) % page ≠ 0 ↔ size % page ≠ 0 := by
  have inside := Nat.mod_lt size positive
  constructor
  · intro padded zero
    rw [zero, Nat.sub_zero, Nat.mod_self] at padded
    exact padded rfl
  · intro odd
    rw [Nat.mod_eq_of_lt (by omega)]
    omega

/-- `readMemoryMappedFile` publishes the wanted lines if and only if each of them is
ended by a newline and contains no zero byte, and the file does not end with its last
page where the limit does not end the reading earlier. -/
theorem readMemoryMappedFile_eq_iff (pageShift maxTuples : Nat) {content : List UInt8}
    (short : ∀ line ∈ splitLines newline content, line.length < MAX_TUPLE_SIZE) :
    readMemoryMappedFile pageShift maxTuples content = some (wanted maxTuples content) ↔
      Ended maxTuples 0 content ∧
        (∀ line ∈ wanted maxTuples content, 0 ∉ line) ∧
        (Reached maxTuples 0 content ∨ content.length % 2 ^ pageShift ≠ 0) := by
  have below : Below maxTuples 0 := by
    unfold Below
    omega
  rw [wanted_eq_upTo, ← padding_ne_zero_iff (Nat.two_pow_pos pageShift)]
  apply mappedLoop_eq_iff _ content _ 0 below _ short
  rw [mapped, List.length_append]
  omega

/-! ## The blocks of the file -/

section Blocks

variable {assertions : Bool} {maxTuples : Nat}

theorem rawLoop_last {part : List UInt8} (free : newline ∉ part) (rounds : Nat)
    (state : Raw) (offset : Nat) :
    rawLoop assertions maxTuples (rounds + 1) state offset part =
      some ([], some state) := by
  rw [rawLoop, memchr_last free]

theorem rawLoop_more {part : List UInt8} (free : newline ∉ part) (rest : List UInt8)
    (rounds : Nat) (state : Raw) (offset : Nat) :
    rawLoop assertions maxTuples (rounds + 1) state offset (part ++ newline :: rest) =
      if assertions = true ∧ ¬ (state.store ++ part).length + 1 < MAX_TUPLE_SIZE then none
      else if MAX_TUPLE_SIZE < (state.store ++ part).length + 1 then none
      else if state.ntuples + 1 = maxTuples then some ([state.store ++ part], none)
      else
        (rawLoop assertions maxTuples rounds
          ⟨state.ntuples + 1, [], offset + part.length + 1⟩ (offset + part.length + 1)
          rest).map fun result => ((state.store ++ part) :: result.1, result.2) := by
  have behind : (part ++ newline :: rest).drop (part.length + 1) = rest := by
    rw [← List.drop_drop, List.drop_left, List.drop_one, List.tail_cons]
  have size : part.length + 1 + state.store.length = (state.store ++ part).length + 1 := by
    rw [List.length_append]
    omega
  have sum : state.store.length + (part.length + 1) = (state.store ++ part).length + 1 := by
    rw [List.length_append]
    omega
  rw [rawLoop, memchr_more free]
  dsimp only
  rw [List.take_left, behind, size, sum]

/-- The lines of the assertion in `readRawFile`. -/
def Asserted (assertions : Bool) (lines : List (List UInt8)) : Prop :=
  assertions = true → ∀ line ∈ lines, line.length + 1 < MAX_TUPLE_SIZE

/-- Every block contains a newline, as long as the limit is not reached before it. -/
def EachEndsALine (maxTuples ntuples : Nat) (blocks : List (List UInt8)) : Prop :=
  ∀ before block after, blocks = before ++ block :: after →
    ¬ Reached maxTuples ntuples before.flatten → newline ∈ block

theorem eachEndsALine_nil (maxTuples ntuples : Nat) :
    EachEndsALine maxTuples ntuples [] := by
  intro before block after split
  exact absurd split.symm (List.append_ne_nil_of_right_ne_nil before (List.cons_ne_nil _ _))

theorem eachEndsALine_cons (ntuples : Nat) (buf : List UInt8)
    (blocks : List (List UInt8)) :
    EachEndsALine maxTuples ntuples (buf :: blocks) ↔
      (¬ Reached maxTuples ntuples [] → newline ∈ buf) ∧
        EachEndsALine maxTuples (ntuples + buf.count newline) blocks := by
  constructor
  · intro each
    refine ⟨each [] buf blocks rfl, ?_⟩
    intro before block after split unreached
    apply each (buf :: before) block after (by rw [split, List.cons_append])
    rw [List.flatten_cons, reached_append]
    exact unreached
  · intro both before block after split unreached
    cases before with
    | nil =>
        obtain ⟨rfl, _⟩ := List.cons.inj split
        exact both.1 unreached
    | cons first before =>
        obtain ⟨rfl, rest⟩ := List.cons.inj split
        apply both.2 before block after rest
        rw [← reached_append, ← List.flatten_cons]
        exact unreached

/-- Nothing is said about what is behind the limit. -/
theorem eachEndsALine_of_last {ntuples more : Nat} (last : ntuples + 1 = maxTuples)
    (blocks : List (List UInt8)) :
    EachEndsALine maxTuples (ntuples + 1 + more) blocks := by
  intro before block after _ unreached
  unfold Reached at unreached
  omega

/-! ### A lost beginning of a line -/

/-- If `store` holds less than what belongs to the line, then it still does behind a
block without a newline. -/
theorem keepRest_short {state next : Raw} {buf : List UInt8} {size : Nat}
    (short : state.store.length < size) (kept : keepRest state buf = some next) :
    next.store.length < size + buf.length := by
  unfold keepRest at kept
  split at kept
  · split at kept
    · cases kept
    · cases kept
      rw [List.length_drop]
      omega
  · cases kept
    omega

/-- The first line that is published begins with `store`. -/
theorem rawRun_first {part : List UInt8} (free : newline ∉ part) {rest : List UInt8}
    {blocks : List (List UInt8)} {state : Raw} {lines : List (List UInt8)}
    (ran : rawRun assertions maxTuples ((part ++ newline :: rest) :: blocks) state =
      some lines) :
    lines.head? = some (state.store ++ part) := by
  rw [rawRun, rawLoop_more free] at ran
  split at ran
  · cases ran
  · split at ran
    · cases ran
    · split at ran
      · cases ran
        rfl
      · obtain ⟨result, looped, after⟩ := Option.bind_eq_some_iff.mp ran
        obtain ⟨others, _, rfl⟩ := Option.map_eq_some_iff.mp looped
        unfold afterLoop at after
        split at after
        · cases after
          rfl
        · obtain ⟨later, _, rfl⟩ := Option.map_eq_some_iff.mp after
          rfl

/-- A line whose beginning is lost is not published. -/
theorem rawRun_short (blocks : List (List UInt8)) :
    ∀ (state : Raw) (begun : List UInt8) (ntuples : Nat), newline ∉ begun →
      state.store.length < begun.length →
      rawRun assertions maxTuples blocks state ≠
        some (upTo maxTuples ntuples
          (splitLines newline (begun ++ blocks.flatten))) := by
  induction blocks with
  | nil =>
      intro state begun ntuples free short ran
      have nonempty : begun ≠ [] := by
        rintro rfl
        exact absurd short (Nat.not_lt_zero _)
      rw [List.flatten_nil, List.append_nil, upTo_last free, if_neg nonempty] at ran
      cases ran
  | cons buf blocks induction =>
      intro state begun ntuples free short ran
      by_cases inside : newline ∈ buf
      · obtain ⟨part, rest, rfl, partFree⟩ := List.eq_append_cons_of_mem inside
        have lineFree : newline ∉ begun ++ part := by
          rw [List.mem_append]
          exact not_or.mpr ⟨free, partFree⟩
        have first := rawRun_first partFree ran
        rw [List.flatten_cons, List.append_assoc, List.cons_append, ← List.append_assoc,
          upTo_more lineFree, List.head?_cons] at first
        have lengths := congrArg List.length (Option.some.inj first)
        rw [List.length_append, List.length_append] at lengths
        omega
      · rw [rawRun, rawLoop_last inside, Option.bind_some, afterLoop] at ran
        obtain ⟨lines, went, same⟩ := Option.map_eq_some_iff.mp ran
        obtain ⟨next, kept, continued⟩ := Option.bind_eq_some_iff.mp went
        have lineFree : newline ∉ begun ++ buf := by
          rw [List.mem_append]
          exact not_or.mpr ⟨free, inside⟩
        have stillShort := keepRest_short short kept
        rw [← List.length_append] at stillShort
        apply induction next (begun ++ buf) ntuples lineFree stillShort
        rw [continued, List.append_assoc, ← List.flatten_cons, ← same]
        rfl

/-! ### A block in which lines end -/

theorem afterLoop_cons (buf : List UInt8) (goOn : Raw → Option (List (List UInt8)))
    (line : List UInt8) (looped : Option (List (List UInt8) × Option Raw)) :
    (looped.map fun result => (line :: result.1, result.2)).bind (afterLoop buf goOn) =
      (looped.bind (afterLoop buf goOn)).map fun lines => line :: lines := by
  cases looped with
  | none => rfl
  | some result =>
      obtain ⟨lines, behind⟩ := result
      cases behind with
      | none => rfl
      | some behind =>
          simp only [Option.map_some, Option.bind_some, afterLoop]
          cases (keepRest behind buf).bind goOn with
          | none => rfl
          | some others => rfl

/-- One line is taken off. -/
theorem rawLoop_line_iff {part : List UInt8} {state : Raw} (partFree : newline ∉ part)
    (storeFree : newline ∉ state.store)
    (short : (state.store ++ part).length < MAX_TUPLE_SIZE)
    {rounds offset : Nat} {rest behind : List UInt8} {buf : List UInt8}
    {goOn : Raw → Option (List (List UInt8))} {endsLines : Prop}
    (others : state.ntuples + 1 ≠ maxTuples →
      ((rawLoop assertions maxTuples rounds
          ⟨state.ntuples + 1, [], offset + part.length + 1⟩ (offset + part.length + 1)
          rest).bind (afterLoop buf goOn) =
        some (upTo maxTuples (state.ntuples + 1) (splitLines newline (rest ++ behind))) ↔
      Ended maxTuples (state.ntuples + 1) (rest ++ behind) ∧
        Asserted assertions
          (upTo maxTuples (state.ntuples + 1) (splitLines newline (rest ++ behind))) ∧
        endsLines))
    (reached : state.ntuples + 1 = maxTuples → endsLines) :
    (rawLoop assertions maxTuples (rounds + 1) state offset
        (part ++ newline :: rest)).bind (afterLoop buf goOn) =
      some (upTo maxTuples state.ntuples
        (splitLines newline (state.store ++ part ++ newline :: (rest ++ behind)))) ↔
    Ended maxTuples state.ntuples (state.store ++ part ++ newline :: (rest ++ behind)) ∧
      Asserted assertions (upTo maxTuples state.ntuples
        (splitLines newline (state.store ++ part ++ newline :: (rest ++ behind)))) ∧
      endsLines := by
  have free : newline ∉ state.store ++ part := by
    rw [List.mem_append]
    exact not_or.mpr ⟨storeFree, partFree⟩
  rw [rawLoop_more partFree, upTo_more free, ended_more free]
  by_cases failed : assertions = true ∧ ¬ (state.store ++ part).length + 1 < MAX_TUPLE_SIZE
  · rw [if_pos failed, Option.bind_none]
    constructor
    · intro impossible
      cases impossible
    · intro both
      exact absurd (both.2.1 failed.1 _ List.mem_cons_self) failed.2
  · have holds : ∀ lines, Asserted assertions ((state.store ++ part) :: lines) ↔
        Asserted assertions lines := by
      intro lines
      unfold Asserted
      constructor
      · intro all on line inside
        exact all on line (List.mem_cons_of_mem _ inside)
      · intro all on
        refine List.forall_mem_cons.mpr ⟨?_, all on⟩
        by_contra long
        exact failed ⟨on, long⟩
    have fits : ¬ MAX_TUPLE_SIZE < (state.store ++ part).length + 1 := by omega
    rw [if_neg failed, if_neg fits, holds]
    by_cases last : state.ntuples + 1 = maxTuples
    · rw [if_pos last, if_pos last]
      constructor
      · intro _
        refine ⟨ended_of_last last _, ?_, reached last⟩
        intro _ line inside
        exact absurd inside List.not_mem_nil
      · intro _
        rfl
    · rw [if_neg last, if_neg last, afterLoop_cons, ← others last]
      simp only [Option.map_eq_some_iff, List.cons.injEq, true_and, exists_eq_right]

/-- What is read of a line that is not at its end is shorter than the line. -/
theorem begun_short {begun rest : List UInt8} (free : newline ∉ begun)
    (short : ∀ line ∈ splitLines newline (begun ++ rest), line.length < MAX_TUPLE_SIZE) :
    begun.length < MAX_TUPLE_SIZE := by
  by_cases inside : newline ∈ rest
  · obtain ⟨part, behind, rfl, partFree⟩ := List.eq_append_cons_of_mem inside
    have lineFree : newline ∉ begun ++ part := by
      rw [List.mem_append]
      exact not_or.mpr ⟨free, partFree⟩
    rw [← List.append_assoc, splitLines_more lineFree] at short
    have line := short _ List.mem_cons_self
    rw [List.length_append] at line
    omega
  · have lineFree : newline ∉ begun ++ rest := by
      rw [List.mem_append]
      exact not_or.mpr ⟨free, inside⟩
    rw [splitLines_last lineFree] at short
    by_cases empty : begun ++ rest = []
    · obtain ⟨rfl, _⟩ := List.append_eq_nil_iff.mp empty
      decide
    · rw [if_neg empty] at short
      have line := short _ List.mem_cons_self
      rw [List.length_append] at line
      omega

theorem keepRest_begun {pre begun : List UInt8} (ntuples : Nat)
    (short : begun.length < MAX_TUPLE_SIZE) :
    keepRest ⟨ntuples, [], pre.length⟩ (pre ++ begun) =
      some ⟨ntuples, begun, pre.length⟩ := by
  have size : (pre ++ begun).length - pre.length = begun.length := by
    rw [List.length_append]
    omega
  unfold keepRest
  dsimp only
  rw [size, List.drop_left, if_neg (show ¬ MAX_TUPLE_SIZE < begun.length by omega)]
  cases begun with
  | nil => simp
  | cons c begun => simp

/-- The rest `p` of a block behind a newline, or a whole block before which nothing was
left over; `runs` says what is published from the blocks behind it. -/
theorem rawLoop_eq_iff {blocks : List (List UInt8)}
    (runs : ∀ state : Raw, state.remaining ≠ 0 ∨ state.store ≠ [] →
      newline ∉ state.store → Below maxTuples state.ntuples →
      (∀ line ∈ splitLines newline (state.store ++ blocks.flatten),
        line.length < MAX_TUPLE_SIZE) →
      (rawRun assertions maxTuples blocks state =
          some (upTo maxTuples state.ntuples
            (splitLines newline (state.store ++ blocks.flatten))) ↔
        Ended maxTuples state.ntuples (state.store ++ blocks.flatten) ∧
          Asserted assertions (upTo maxTuples state.ntuples
            (splitLines newline (state.store ++ blocks.flatten))) ∧
          EachEndsALine maxTuples state.ntuples blocks))
    (p : List UInt8) :
    ∀ rounds ntuples pre, pre ++ p ≠ [] → p.length < rounds → Below maxTuples ntuples →
      (∀ line ∈ splitLines newline (p ++ blocks.flatten),
        line.length < MAX_TUPLE_SIZE) →
      ((rawLoop assertions maxTuples rounds ⟨ntuples, [], pre.length⟩ pre.length p).bind
          (afterLoop (pre ++ p) (rawRun assertions maxTuples blocks)) =
        some (upTo maxTuples ntuples (splitLines newline (p ++ blocks.flatten))) ↔
      Ended maxTuples ntuples (p ++ blocks.flatten) ∧
        Asserted assertions
          (upTo maxTuples ntuples (splitLines newline (p ++ blocks.flatten))) ∧
        EachEndsALine maxTuples (ntuples + p.count newline) blocks) := by
  induction p using Splitting.induction newline with
  | last part free =>
      intro rounds ntuples pre nonempty enough below short
      cases rounds with
      | zero => omega
      | succ rounds =>
          have started : pre.length ≠ 0 ∨ part ≠ [] := by
            by_cases noPre : pre = []
            · subst noPre
              exact .inr nonempty
            · exact .inl fun zero => noPre (List.eq_nil_of_length_eq_zero zero)
          have behind := runs ⟨ntuples, part, pre.length⟩ started free below short
          rw [rawLoop_last free, Option.bind_some, afterLoop]
          dsimp only
          rw [keepRest_begun ntuples (begun_short free short), Option.bind_some,
            List.count_eq_zero_of_not_mem free, Nat.add_zero, ← behind]
          simp
  | more part rest free induction =>
      intro rounds ntuples pre nonempty enough below short
      cases rounds with
      | zero => omega
      | succ rounds =>
          rw [List.append_assoc, List.cons_append, splitLines_more free] at short
          obtain ⟨partShort, restShort⟩ := List.forall_mem_cons.mp short
          have left : rest.length < rounds := by
            simp only [List.length_append, List.length_cons] at enough
            omega
          have offset : (pre ++ part ++ [newline]).length = pre.length + part.length + 1 := by
            simp only [List.length_append, List.length_singleton]
          have whole : pre ++ (part ++ newline :: rest) =
              (pre ++ part ++ [newline]) ++ rest := by simp
          have lines : (part ++ newline :: rest).count newline = rest.count newline + 1 := by
            rw [List.count_append, List.count_eq_zero_of_not_mem free, List.count_cons_self]
            omega
          have later : (ntuples + (rest.count newline + 1)) =
              ntuples + 1 + rest.count newline := by omega
          have bytes : part ++ newline :: rest ++ blocks.flatten =
              part ++ newline :: (rest ++ blocks.flatten) := by simp
          rw [whole, bytes, lines, later]
          apply rawLoop_line_iff
          · exact free
          · exact List.not_mem_nil
          · exact partShort
          · intro other
            rw [← offset]
            exact induction rounds (ntuples + 1) (pre ++ part ++ [newline]) (by simp) left
              (below.succ other) restShort
          · intro last
            exact eachEndsALine_of_last last blocks

/-- The blocks behind the first one. -/
theorem rawRun_eq_iff (blocks : List (List UInt8)) :
    (∀ block ∈ blocks, block ≠ []) → ∀ state : Raw,
      state.remaining ≠ 0 ∨ state.store ≠ [] →
      newline ∉ state.store → Below maxTuples state.ntuples →
      (∀ line ∈ splitLines newline (state.store ++ blocks.flatten),
        line.length < MAX_TUPLE_SIZE) →
      (rawRun assertions maxTuples blocks state =
          some (upTo maxTuples state.ntuples
            (splitLines newline (state.store ++ blocks.flatten))) ↔
        Ended maxTuples state.ntuples (state.store ++ blocks.flatten) ∧
          Asserted assertions (upTo maxTuples state.ntuples
            (splitLines newline (state.store ++ blocks.flatten))) ∧
          EachEndsALine maxTuples state.ntuples blocks) := by
  induction blocks with
  | nil =>
      intro _ state _ free below short
      have ends := eachEndsALine_nil maxTuples state.ntuples
      rw [List.flatten_nil, List.append_nil, ended_last below free, upTo_last free, rawRun]
      by_cases empty : state.store = []
      · simp [empty, Asserted, ends]
      · simp [empty]
  | cons buf blocks induction =>
      intro nonempty state started free below short
      obtain ⟨bufNonempty, othersNonempty⟩ := List.forall_mem_cons.mp nonempty
      have unreached : ¬ Reached maxTuples state.ntuples [] :=
        below.not_reached List.not_mem_nil
      rw [eachEndsALine_cons]
      by_cases inside : newline ∈ buf
      · obtain ⟨part, rest, rfl, partFree⟩ := List.eq_append_cons_of_mem inside
        have lineFree : newline ∉ state.store ++ part := by
          rw [List.mem_append]
          exact not_or.mpr ⟨free, partFree⟩
        have split : state.store ++ ((part ++ newline :: rest) :: blocks).flatten =
            state.store ++ part ++ newline :: (rest ++ blocks.flatten) := by simp
        rw [split] at short ⊢
        rw [splitLines_more lineFree] at short
        obtain ⟨lineShort, restShort⟩ := List.forall_mem_cons.mp short
        have lines : state.ntuples + (part ++ newline :: rest).count newline =
            state.ntuples + 1 + rest.count newline := by
          rw [List.count_append, List.count_eq_zero_of_not_mem partFree,
            List.count_cons_self]
          omega
        have newlineInside : (¬ Reached maxTuples state.ntuples [] →
            newline ∈ part ++ newline :: rest) ↔ True :=
          iff_true_intro fun _ => inside
        have whole : part ++ newline :: rest = (part ++ [newline]) ++ rest := by simp
        have offset : 0 + part.length + 1 = (part ++ [newline]).length := by simp
        rw [newlineInside, true_and, lines, rawRun]
        refine rawLoop_line_iff partFree free lineShort ?_ ?_
        · intro other
          rw [whole, offset]
          apply rawLoop_eq_iff (induction othersNonempty) rest
          · simp
          · simp only [List.length_append, List.length_singleton]
            omega
          · exact below.succ other
          · exact restShort
        · intro last
          exact eachEndsALine_of_last last blocks
      · constructor
        · intro ran
          rw [rawRun, rawLoop_last inside, Option.bind_some, afterLoop] at ran
          obtain ⟨lines, went, same⟩ := Option.map_eq_some_iff.mp ran
          obtain ⟨next, kept, continued⟩ := Option.bind_eq_some_iff.mp went
          have size : 0 < buf.length := List.length_pos_of_ne_nil bufNonempty
          have lost : next.store.length < (state.store ++ buf).length := by
            rw [List.length_append]
            unfold keepRest at kept
            split at kept
            · split at kept
              · cases kept
              · cases kept
                rw [List.length_drop]
                rcases started with behindNewline | kept
                · omega
                · have := List.length_pos_of_ne_nil kept
                  omega
            · cases kept
              omega
          have lineFree : newline ∉ state.store ++ buf := by
            rw [List.mem_append]
            exact not_or.mpr ⟨free, inside⟩
          exfalso
          apply rawRun_short blocks next (state.store ++ buf) state.ntuples lineFree lost
          rw [continued, List.append_assoc, ← List.flatten_cons, ← same]
          rfl
        · intro both
          exact absurd (both.2.2.1 unreached) inside

end Blocks

/-- `readRawFile` publishes the wanted lines if and only if each of them is ended by a
newline and passes the assertion, and every block but the first one contains a newline
where the limit is not reached before it. -/
theorem readRawFile_eq_iff (assertions : Bool) (maxTuples : Nat) {content : List UInt8}
    (short : ∀ line ∈ splitLines newline content, line.length < MAX_TUPLE_SIZE)
    (delivered : Delivered content) :
    readRawFile assertions maxTuples delivered.blocks = some (wanted maxTuples content) ↔
      Ended maxTuples 0 content ∧
        Asserted assertions (wanted maxTuples content) ∧
        ∀ before block after, delivered.blocks = before ++ block :: after → before ≠ [] →
          ¬ Reached maxTuples 0 before.flatten → newline ∈ block := by
  have below : Below maxTuples 0 := by
    unfold Below
    omega
  obtain ⟨blocks, nonempty, bounded, rfl⟩ := delivered
  rw [wanted_eq_upTo]
  cases blocks with
  | nil =>
      simp [readRawFile, rawRun, upTo, Asserted, Ended]
  | cons buf blocks =>
      obtain ⟨bufNonempty, othersNonempty⟩ := List.forall_mem_cons.mp nonempty
      have later : (∀ before block after, buf :: blocks = before ++ block :: after →
          before ≠ [] → ¬ Reached maxTuples 0 before.flatten → newline ∈ block) ↔
          EachEndsALine maxTuples (0 + buf.count newline) blocks := by
        constructor
        · intro each before block after split unreached
          apply each (buf :: before) block after
          · rw [split, List.cons_append]
          · exact List.cons_ne_nil _ _
          · rw [List.flatten_cons, reached_append]
            exact unreached
        · intro each before block after split started unreached
          cases before with
          | nil => exact absurd rfl started
          | cons first before =>
              obtain ⟨rfl, rest⟩ := List.cons.inj split
              apply each before block after rest
              rw [← reached_append, ← List.flatten_cons]
              exact unreached
      rw [later]
      exact rawLoop_eq_iff (rawRun_eq_iff blocks othersNonempty) buf _ 0 [] bufNonempty
        (Nat.lt_succ_self _) below short

/-! ## The readers together -/

/-- A file whose lines are shorter than `MAX_TUPLE_SIZE`. -/
structure TextFile where
  content : List UInt8
  short : ∀ line ∈ splitLines newline content, line.length < MAX_TUPLE_SIZE

/-- All readers publish the wanted lines, for the pages and assertions of the system, the
limit, and the blocks that `read` delivers. -/
def ReadersAgree (pageShift : Nat) (assertions : Bool) (maxTuples : Nat) (file : TextFile)
    (delivered : Delivered file.content) : Prop :=
  readMemoryMappedFile pageShift maxTuples file.content =
      some (wanted maxTuples file.content) ∧
    readRawFile assertions maxTuples delivered.blocks =
      some (wanted maxTuples file.content) ∧
    readCompressedFile maxTuples file.content = some (wanted maxTuples file.content)

/-- What the file, the limit and the blocks have to fulfil. -/
structure Regular (pageShift : Nat) (assertions : Bool) (maxTuples : Nat)
    (file : TextFile) (delivered : Delivered file.content) : Prop where
  ended : Ended maxTuples 0 file.content
  text : ∀ line ∈ wanted maxTuples file.content, 0 ∉ line
  padded : Reached maxTuples 0 file.content ∨ file.content.length % 2 ^ pageShift ≠ 0
  asserted : Asserted assertions (wanted maxTuples file.content)
  blocks : ∀ before block after, delivered.blocks = before ++ block :: after →
    before ≠ [] → ¬ Reached maxTuples 0 before.flatten → newline ∈ block

/-- For every file whose lines are shorter than `MAX_TUPLE_SIZE`, every limit and all
blocks that `read` may deliver, the readers publish the lines of the file up to the
limit if and only if the last of them is ended by a newline, none contains a zero byte,
there is a byte behind the file on its last page, the assertion does not forbid the
longest lines, and each block but the first one contains a newline. -/
theorem textFileSource_readersAgree_iff (pageShift : Nat) (assertions : Bool)
    (maxTuples : Nat) (file : TextFile) (delivered : Delivered file.content) :
    ReadersAgree pageShift assertions maxTuples file delivered ↔
      Regular pageShift assertions maxTuples file delivered := by
  unfold ReadersAgree
  rw [readMemoryMappedFile_eq_iff pageShift maxTuples file.short,
    readRawFile_eq_iff assertions maxTuples file.short delivered, readCompressedFile_eq]
  constructor
  · intro agree
    obtain ⟨⟨ended, text, padded⟩, ⟨_, asserted, blocks⟩, _⟩ := agree
    exact ⟨ended, text, padded, asserted, blocks⟩
  · intro regular
    exact ⟨⟨regular.ended, regular.text, regular.padded⟩,
      ⟨regular.ended, regular.asserted, regular.blocks⟩, rfl⟩

theorem unfinished_short :
    ∀ line ∈ splitLines newline [97], line.length < MAX_TUPLE_SIZE := by
  decide

/-- A file of one line that is not ended by a newline. -/
def unfinished : TextFile := ⟨[97], unfinished_short⟩

theorem unfinished_nonempty : ∀ block ∈ [[(97 : UInt8)]], block ≠ [] := by
  decide

theorem unfinished_bounded : ∀ block ∈ [[(97 : UInt8)]], block.length ≤ BUFFER_SIZE := by
  decide

/-- It is delivered as one block. -/
def unfinishedBlock : Delivered unfinished.content :=
  ⟨[[97]], unfinished_nonempty, unfinished_bounded, rfl⟩

theorem not_textFileSource_readersAgree :
    ¬ ∀ (pageShift : Nat) (assertions : Bool) (maxTuples : Nat) (file : TextFile)
      (delivered : Delivered file.content),
      ReadersAgree pageShift assertions maxTuples file delivered := by
  intro readers
  obtain ⟨_, raw, _⟩ := readers 12 false 0 unfinished unfinishedBlock
  revert raw
  decide

end PipeFabric.TextFileSource
