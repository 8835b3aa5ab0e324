import Mathlib.Algebra.Group.Nat.Defs
import PipeFabric.Library.Splitting

/-!
# Reading text files line by line

`TextFileSource` has three loops that cut a file into lines: one over the blocks that
`read` delivers, one over the memory the file is mapped to, and one that calls
`getline` on a decompressed stream.  Each of them publishes the lines it finds and
ends early when a limit is reached; a limit of 0 never is.

A pointer into a buffer is modelled by the bytes from where it points to.  A reader is
`none` where it reads or writes outside of its buffers or an assertion fails.
-/

namespace PipeFabric.TextFileSource

/-- The character at which lines end. -/
def newline : UInt8 := 10

/-- `MAX_TUPLE_SIZE`, the size of `store`. -/
def MAX_TUPLE_SIZE : Nat := 10240

/-- `BUFFER_SIZE`. -/
def BUFFER_SIZE : Nat := 16 * 1024

/-! ## The memory-mapped file -/

/-- `strchr(p, '\n')`: how far the newline is; it is not searched behind a zero byte. -/
def strchr : List UInt8 → Option (Option Nat)
  | [] => none
  | c :: rest =>
      if c = newline then some (some 0)
      else if c = 0 then some none
      else (strchr rest).map fun found => found.map (· + 1)

/-- The pages a file is mapped to: the rest of its last page is filled with zero bytes.
An empty file cannot be mapped; nothing can be read there either. -/
def mapped (pageShift : Nat) (content : List UInt8) : List UInt8 :=
  content ++
    List.replicate ((2 ^ pageShift - content.length % 2 ^ pageShift) % 2 ^ pageShift) 0

/-- The loop of `readMemoryMappedFile` from `p` on, after `ntuples` lines.  Each round
moves `p`, so that `rounds` is not exhausted before the memory is. -/
def mappedLoop (maxTuples : Nat) :
    Nat → Nat → List UInt8 → Option (List (List UInt8))
  | 0, _, _ => none
  | rounds + 1, ntuples, p =>
      (strchr p).bind fun found =>
        match found with
        | none => some []
        | some length =>
            if MAX_TUPLE_SIZE < length + 1 then none
            else if ntuples + 1 = maxTuples then some [p.take length]
            else
              (mappedLoop maxTuples rounds (ntuples + 1) (p.drop (length + 1))).map
                fun lines => p.take length :: lines

/-- `readMemoryMappedFile`: the lines it publishes. -/
def readMemoryMappedFile (pageShift maxTuples : Nat) (content : List UInt8) :
    Option (List (List UInt8)) :=
  let f := mapped pageShift content
  mappedLoop maxTuples (f.length + 1) 0 f

/-! ## The blocks of the file -/

/-- `memchr(p, '\n', ..)` up to the end of the block. -/
def memchr : List UInt8 → Option Nat
  | [] => none
  | c :: rest => if c = newline then some 0 else (memchr rest).map (· + 1)

/-- The variables of `readRawFile`: the first `start` bytes of `store` stand for
both. -/
structure Raw where
  ntuples : Nat
  store : List UInt8
  remaining : Nat

/-- The inner loop from `p = buf + offset` on: the lines it publishes, and the
variables behind it unless the limit is reached. -/
def rawLoop (assertions : Bool) (maxTuples : Nat) :
    Nat → Raw → Nat → List UInt8 → Option (List (List UInt8) × Option Raw)
  | 0, _, _, _ => none
  | rounds + 1, state, offset, p =>
      match memchr p with
      | none => some ([], some state)
      | some length =>
          let start := state.store.length
          if assertions = true ∧ ¬ length + 1 + start < MAX_TUPLE_SIZE then none
          else if MAX_TUPLE_SIZE < start + (length + 1) then none
          else
            let line := state.store ++ p.take length
            if state.ntuples + 1 = maxTuples then some ([line], none)
            else
              (rawLoop assertions maxTuples rounds
                ⟨state.ntuples + 1, [], offset + length + 1⟩ (offset + length + 1)
                (p.drop (length + 1))).map fun result => (line :: result.1, result.2)

/-- What is behind the inner loop: the rest of the block is kept in `store`. -/
def keepRest (state : Raw) (buf : List UInt8) : Option Raw :=
  if state.remaining < buf.length then
    if MAX_TUPLE_SIZE < buf.length - state.remaining then none
    else some { state with store := buf.drop state.remaining }
  else some state

/-- How `readRawFile` goes on behind the inner loop. -/
def afterLoop (buf : List UInt8) (goOn : Raw → Option (List (List UInt8)))
    (result : List (List UInt8) × Option Raw) : Option (List (List UInt8)) :=
  match result.2 with
  | none => some result.1
  | some behind => ((keepRest behind buf).bind goOn).map fun lines => result.1 ++ lines

/-- The outer loop over the blocks that `read` delivers. -/
def rawRun (assertions : Bool) (maxTuples : Nat) :
    List (List UInt8) → Raw → Option (List (List UInt8))
  | [], _ => some []
  | buf :: blocks, state =>
      (rawLoop assertions maxTuples (buf.length + 1) state 0 buf).bind
        (afterLoop buf (rawRun assertions maxTuples blocks))

/-- `readRawFile`: the lines it publishes. -/
def readRawFile (assertions : Bool) (maxTuples : Nat) (blocks : List (List UInt8)) :
    Option (List (List UInt8)) :=
  rawRun assertions maxTuples blocks ⟨0, [], 0⟩

/-- A way for `read` to deliver the content of a file. -/
structure Delivered (content : List UInt8) where
  blocks : List (List UInt8)
  nonempty : ∀ block ∈ blocks, block ≠ []
  bounded : ∀ block ∈ blocks, block.length ≤ BUFFER_SIZE
  complete : blocks.flatten = content

/-! ## The decompressed stream -/

/-- `getline`: the line and what is left of the stream, unless the stream is at its end. -/
def getline : List UInt8 → Option (List UInt8 × List UInt8)
  | [] => none
  | c :: rest =>
      match memchr (c :: rest) with
      | none => some (c :: rest, [])
      | some length => some ((c :: rest).take length, (c :: rest).drop (length + 1))

/-- The loop of `readCompressedFile`; each round takes something from the stream. -/
def compressedLoop (maxTuples : Nat) :
    Nat → Nat → List UInt8 → Option (List (List UInt8))
  | 0, _, _ => none
  | rounds + 1, ntuples, stream =>
      match getline stream with
      | none => some []
      | some result =>
          if ntuples + 1 = maxTuples then some [result.1]
          else
            (compressedLoop maxTuples rounds (ntuples + 1) result.2).map
              fun lines => result.1 :: lines

/-- `readCompressedFile` on what the decompressor delivers: the lines it publishes. -/
def readCompressedFile (maxTuples : Nat) (content : List UInt8) :
    Option (List (List UInt8)) :=
  compressedLoop maxTuples (content.length + 1) 0 content

/-! ## Searching for the newline -/

theorem memchr_last {part : List UInt8} (free : newline ∉ part) : memchr part = none := by
  induction part with
  | nil => rfl
  | cons c part induction =>
      have other : c ≠ newline := fun same => free (same ▸ List.mem_cons_self)
      rw [memchr, if_neg other, induction fun inside => free (List.mem_cons_of_mem c inside)]
      rfl

theorem memchr_more {part : List UInt8} (free : newline ∉ part) (rest : List UInt8) :
    memchr (part ++ newline :: rest) = some part.length := by
  induction part with
  | nil => exact if_pos rfl
  | cons c part induction =>
      have other : c ≠ newline := fun same => free (same ▸ List.mem_cons_self)
      rw [List.cons_append, memchr, if_neg other,
        induction fun inside => free (List.mem_cons_of_mem c inside)]
      rfl

/-- A zero byte in front of the newline ends the search. -/
theorem strchr_zero {part : List UInt8} (free : newline ∉ part) (zero : 0 ∈ part)
    (rest : List UInt8) : strchr (part ++ rest) = some none := by
  induction part with
  | nil => exact absurd zero List.not_mem_nil
  | cons c part induction =>
      have other : c ≠ newline := fun same => free (same ▸ List.mem_cons_self)
      rw [List.cons_append, strchr, if_neg other]
      by_cases first : c = 0
      · rw [if_pos first]
      · have later : 0 ∈ part := by
          rcases List.mem_cons.mp zero with same | inside
          · exact absurd same.symm first
          · exact inside
        rw [if_neg first,
          induction (fun inside => free (List.mem_cons_of_mem c inside)) later]
        rfl

/-- Bytes in which nothing is found are skipped. -/
theorem strchr_append {part : List UInt8} (free : newline ∉ part) (noZero : 0 ∉ part)
    (rest : List UInt8) :
    strchr (part ++ rest) =
      (strchr rest).map fun found => found.map (· + part.length) := by
  induction part with
  | nil => simp
  | cons c part induction =>
      have other : c ≠ newline := fun same => free (same ▸ List.mem_cons_self)
      have first : c ≠ 0 := fun same => noZero (same ▸ List.mem_cons_self)
      rw [List.cons_append, strchr, if_neg other, if_neg first,
        induction (fun inside => free (List.mem_cons_of_mem c inside))
          (fun inside => noZero (List.mem_cons_of_mem c inside))]
      cases strchr rest with
      | none => rfl
      | some found =>
          cases found with
          | none => rfl
          | some length =>
              simp only [Option.map_some, List.length_cons, Option.some.injEq]
              omega

theorem strchr_more {part : List UInt8} (free : newline ∉ part) (noZero : 0 ∉ part)
    (rest : List UInt8) :
    strchr (part ++ newline :: rest) = some (some part.length) := by
  rw [strchr_append free noZero, strchr, if_pos rfl]
  simp

end PipeFabric.TextFileSource
