import Mathlib.Data.List.Dedup
import PipeFabric.Library.FiniteMap
import PipeFabric.Library.Transducer
import PipeFabric.Core.Punctuation

/-!
# Making tuples from triples

`Tuplifier` collects the triples of a subject in a buffer, and makes a tuple from them with
an attribute for each predicate of a schema.
-/

namespace PipeFabric

/-- A triple of strings, as it comes in. -/
structure Triple where
  subject : String
  predicate : String
  object : String
  deriving DecidableEq

/-- `TuplifierParams::TuplifyMode`. -/
inductive TuplifyMode where
  | ORDERED
  | WINDOW
  | PUNCTUATED
  | COMPLETED
  deriving DecidableEq

namespace Tuplifier

/-- The map from predicates to their fields, which the constructor makes. -/
def predicates (predList : List String) : FiniteMap.Entries String Nat :=
  predList.zipIdx.foldl
    (fun map li =>
      if FiniteMap.contents map li.1 = none then map.insert li.1 (li.2 + 1) else map) ∅

/-- `BufferItem`, without the time of arrival, which only the window mode uses. -/
structure BufferItem where
  tripleList : List Triple
  matched : Nat

/-- The operator. -/
structure State where
  tupleBuffer : FiniteMap.Entries String BufferItem
  currentSubj : String

def init : State := ⟨∅, ""⟩

section

variable {Out : Type} (predList : List String) (create : List String → Out)

/-- `addToBuffer`. -/
def addToBuffer (state : State) (data : Triple) : State :=
  match FiniteMap.contents (predicates predList) data.predicate with
  | none => state
  | some _ =>
      match FiniteMap.contents state.tupleBuffer data.subject with
      | some it =>
          { state with
            tupleBuffer := state.tupleBuffer.insert data.subject
              ⟨it.tripleList ++ [data], it.matched + 1⟩ }
      | none =>
          { state with tupleBuffer := state.tupleBuffer.insert data.subject ⟨[data], 1⟩ }

/-- `produceTuple`.  The output type says how a tuple is created from strings.  The triples
have known predicates, and the field of each has to be there. -/
def produceTuple (tbuf : List Triple) : Option Out :=
  tbuf.head?.bind fun front =>
    let data := (List.replicate ((predicates predList).entries.length + 1) "").set 0 front.subject
    (tbuf.foldlM
      (fun data it =>
        (FiniteMap.contents (predicates predList) it.predicate).bind fun field =>
          if field < data.length then some (data.set field it.object) else none) data).map create

/-- `produceTupleForSubject`. -/
def produceTupleForSubject (state : State) (subj : String) : Option (State × List Out) :=
  match FiniteMap.contents state.tupleBuffer subj with
  | none => some (state, [])
  | some lit =>
      (produceTuple predList create lit.tripleList).map fun tuple =>
        ({ state with tupleBuffer := state.tupleBuffer.erase subj }, [tuple])

/-- `produceCompleteTuples`, which erases the complete items on its way. -/
def produceCompleteTuples (state : State) : Option (State × List Out) :=
  let complete (bitem : BufferItem) : Bool :=
    bitem.matched = (predicates predList).entries.length
  ((state.tupleBuffer.entries.filter fun it => complete it.2).mapM fun it =>
    produceTuple predList create it.2.tripleList).map fun tuples =>
      ({ state with
        tupleBuffer := FiniteMap.filterValues (fun bitem => !complete bitem)
          state.tupleBuffer }, tuples)

/-- `produceAllTuples`. -/
def produceAllTuples (state : State) : Option (State × List Out) :=
  (state.tupleBuffer.entries.mapM fun it =>
    produceTuple predList create it.2.tripleList).map fun tuples =>
      ({ state with tupleBuffer := ∅ }, tuples)

/-- `processDataElement`. -/
def processDataElement (mode : TuplifyMode) (state : State) (data : Triple) :
    Option (State × List Out) :=
  if mode = .ORDERED then
    let subj := data.subject
    if state.currentSubj = "" ∨ subj = state.currentSubj then
      let added := addToBuffer predList state data
      some (if added.currentSubj = "" then { added with currentSubj := subj } else added, [])
    else
      (produceTupleForSubject predList create state state.currentSubj).map fun produced =>
        (addToBuffer predList { produced.1 with currentSubj := subj } data, produced.2)
  else
    let added := addToBuffer predList state data
    if mode = .COMPLETED then produceCompleteTuples predList create added
    else some (added, [])

/-- `processDataElement` and `processPunctuation`, with what they publish. -/
def step {Payload : Type} (mode : TuplifyMode) (state : State) :
    StreamItem Triple Payload → Option (State × List (StreamItem Out Payload))
  | .element data _ =>
      (processDataElement predList create mode state data).map fun produced =>
        (produced.1, produced.2.map fun tuple => .element tuple false)
  | .punctuation pp =>
      (if mode = .ORDERED then produceTupleForSubject predList create state state.currentSubj
        else produceAllTuples predList create state).map fun produced =>
          (produced.1, (produced.2.map fun tuple => .element tuple false) ++ [.punctuation pp])

end

/-! ### The schema -/

section

variable {predList : List String}

theorem predicates_concat (predList : List String) (last : String) :
    predicates (predList ++ [last]) =
      if FiniteMap.contents (predicates predList) last = none then
        (predicates predList).insert last (predList.length + 1)
      else predicates predList := by
  rw [predicates, List.zipIdx_append, List.foldl_append, ← predicates]
  simp

/-- A predicate has the field of its first place in the schema. -/
theorem contents_predicates (predList : List String) (predicate : String) :
    FiniteMap.contents (predicates predList) predicate =
      if predicate ∈ predList then some (predList.idxOf predicate + 1) else none := by
  induction predList using List.reverseRecOn with
  | nil => rfl
  | append_singleton predList last induction =>
      rw [predicates_concat]
      by_cases early : predicate ∈ predList
      · rw [if_pos (List.mem_append_left _ early), List.idxOf_append_of_mem early]
        rw [if_pos early] at induction
        split
        · rename_i fresh
          have other : predicate ≠ last := by
            rintro rfl
            rw [induction] at fresh
            cases fresh
          rw [FiniteMap.contents_insert, Function.update_of_ne other, induction]
        · exact induction
      · rw [if_neg early] at induction
        by_cases here : predicate = last
        · subst here
          rw [if_pos induction, FiniteMap.contents_insert, Function.update_self,
            if_pos (List.mem_append_right _ List.mem_cons_self),
            List.idxOf_append_of_notMem early, List.idxOf_cons_self, Nat.add_zero]
        · have absent : predicate ∉ predList ++ [last] := by
            rw [List.mem_append, List.mem_singleton]
            exact not_or.mpr ⟨early, here⟩
          rw [if_neg absent]
          split
          · rw [FiniteMap.contents_insert, Function.update_of_ne here, induction]
          · exact induction

/-- The number of predicates in the map. -/
theorem length_predicates (predList : List String) :
    (predicates predList).entries.length = predList.dedup.length := by
  have same : (predicates predList).keys.Perm predList.dedup := by
    apply (List.perm_ext_iff_of_nodup (predicates predList).nodupKeys
      (List.nodup_dedup predList)).mpr
    intro predicate
    rw [List.mem_dedup]
    have found := contents_predicates predList predicate
    constructor
    · intro member
      by_contra absent
      rw [if_neg absent] at found
      exact AList.lookup_eq_none.mp found member
    · intro member
      rw [if_pos member] at found
      exact FiniteMap.mem_keys_of_contents found
  rw [← FiniteMap.length_keys, same.length_eq]

/-! ### The tuple of a list of triples -/

/-- The last value given for a predicate. -/
def lastValue (triples : List Triple) (predicate : String) : String :=
  ((triples.filter fun triple => triple.predicate = predicate).getLast?.map
    fun triple => triple.object).getD ""

theorem lastValue_concat (triples : List Triple) (last : Triple) (predicate : String) :
    lastValue (triples ++ [last]) predicate =
      if last.predicate = predicate then last.object else lastValue triples predicate := by
  rw [lastValue, List.filter_append]
  by_cases here : last.predicate = predicate
  · rw [if_pos here, List.filter_cons_of_pos (by simpa using here), List.filter_nil,
      List.getLast?_concat]
    rfl
  · rw [if_neg here, List.filter_cons_of_neg (by simpa using here), List.filter_nil,
      List.append_nil]
    rfl

/-- The triples with predicates of the schema. -/
def known (predList : List String) (triples : List Triple) : List Triple :=
  triples.filter fun triple => triple.predicate ∈ predList

theorem lastValue_known (triples : List Triple) {predicate : String}
    (member : predicate ∈ predList) :
    lastValue (known predList triples) predicate = lastValue triples predicate := by
  rw [lastValue, lastValue, known, List.filter_filter]
  congr 4
  funext triple
  by_cases here : triple.predicate = predicate
  · simp [here, member]
  · simp [here]

/-- The tuple of triples with one subject, if a predicate of the schema is among theirs. -/
def tupleOf {Out : Type} (predList : List String) (create : List String → Out)
    (triples : List Triple) : Option Out :=
  (triples.find? fun triple => triple.predicate ∈ predList).map fun first =>
    create (first.subject :: predList.map (lastValue triples))

/-- One round of the loop of `produceTuple`. -/
theorem fieldOf (triple : Triple) (member : triple.predicate ∈ predList) (data : List String) :
    ((FiniteMap.contents (predicates predList) triple.predicate).bind fun field =>
        if field < data.length then some (data.set field triple.object) else none) =
      if predList.idxOf triple.predicate + 1 < data.length then
        some (data.set (predList.idxOf triple.predicate + 1) triple.object)
      else none := by
  rw [contents_predicates, if_pos member]
  rfl

/-- The fields after the loop of `produceTuple`. -/
theorem foldlM_fields (distinct : predList.Nodup) (subject : String) {triples : List Triple}
    (all : ∀ triple ∈ triples, triple.predicate ∈ predList) :
    triples.foldlM
        (fun data it =>
          (FiniteMap.contents (predicates predList) it.predicate).bind fun field =>
            if field < data.length then some (data.set field it.object) else none)
        (subject :: List.replicate predList.length "") =
      some (subject :: predList.map (lastValue triples)) := by
  induction triples using List.reverseRecOn with
  | nil =>
      change some _ = some (subject :: predList.map fun _ => "")
      rw [List.map_const']
  | append_singleton triples last induction =>
      have earlier := induction fun triple member => all triple (List.mem_append_left _ member)
      have member := all last (List.mem_append_right _ List.mem_cons_self)
      have inside : predList.idxOf last.predicate < predList.length :=
        List.idxOf_lt_length_iff.mpr member
      have position : predList[predList.idxOf last.predicate]? = some last.predicate :=
        List.getElem?_idxOf member
      have fits : predList.idxOf last.predicate + 1 <
          (subject :: predList.map (lastValue triples)).length := by
        rw [List.length_cons, List.length_map]
        exact Nat.succ_lt_succ inside
      rw [List.foldlM_append, earlier]
      simp only [List.foldlM_cons, List.foldlM_nil, Option.bind_eq_bind, Option.bind_some]
      rw [fieldOf last member, if_pos fits, List.set_cons_succ]
      change some _ = some _
      congr 2
      apply List.ext_getElem?
      intro j
      rw [List.getElem?_set, List.length_map, List.getElem?_map, List.getElem?_map]
      by_cases same : predList.idxOf last.predicate = j
      · subst same
        rw [if_pos rfl, if_pos inside, position, Option.map_some, lastValue_concat, if_pos rfl]
      · rw [if_neg same]
        cases there : predList[j]? with
        | none => rfl
        | some predicate =>
            have other : last.predicate ≠ predicate := by
              intro equal
              rw [equal] at position
              rw [equal] at inside same
              exact same ((List.getElem?_inj inside distinct).mp (position.trans there.symm))
            rw [Option.map_some, Option.map_some, lastValue_concat, if_neg other]

theorem mem_known {triples : List Triple} {triple : Triple} :
    triple ∈ known predList triples ↔ triple ∈ triples ∧ triple.predicate ∈ predList := by
  rw [known, List.mem_filter, decide_eq_true_eq]

theorem produceTuple_eq (distinct : predList.Nodup) {Out : Type} (create : List String → Out)
    (triples : List Triple) :
    produceTuple predList create (known predList triples) = tupleOf predList create triples := by
  rw [produceTuple, tupleOf, known, List.head?_filter, ← known]
  cases triples.find? fun triple => decide (triple.predicate ∈ predList) with
  | none => rfl
  | some first =>
      have values : predList.map (lastValue (known predList triples)) =
          predList.map (lastValue triples) :=
        List.map_congr_left fun predicate member => lastValue_known triples member
      rw [Option.bind_some, length_predicates, List.Nodup.dedup distinct, List.replicate_succ,
        List.set_cons_zero]
      dsimp only
      rw [foldlM_fields distinct first.subject fun triple member => (mem_known.mp member).2,
        values]
      rfl

/-! ### The buffer -/

/-- What the buffer holds for a subject with these triples. -/
def held (predList : List String) (triples : List Triple) : Option BufferItem :=
  if known predList triples = [] then none
  else some ⟨known predList triples, (known predList triples).length⟩

theorem known_concat (triples : List Triple) (last : Triple) :
    known predList (triples ++ [last]) =
      if last.predicate ∈ predList then known predList triples ++ [last]
      else known predList triples := by
  rw [known, List.filter_append]
  split
  · rename_i member
    rw [List.filter_cons_of_pos (by simpa using member)]
    rfl
  · rename_i absent
    rw [List.filter_cons_of_neg (by simpa using absent), List.filter_nil, List.append_nil]
    rfl

theorem addToBuffer_rename (predList : List String) (state : State) (data : Triple)
    (subj : String) :
    addToBuffer predList { state with currentSubj := subj } data =
      { addToBuffer predList state data with currentSubj := subj } := by
  unfold addToBuffer
  cases FiniteMap.contents (predicates predList) data.predicate with
  | none => rfl
  | some field =>
      dsimp only
      cases FiniteMap.contents state.tupleBuffer data.subject with
      | none => rfl
      | some it => rfl

theorem addToBuffer_currentSubj (predList : List String) (state : State) (data : Triple) :
    (addToBuffer predList state data).currentSubj = state.currentSubj := by
  have same := congrArg State.currentSubj
    (addToBuffer_rename predList state data state.currentSubj)
  exact same

/-- The triple comes to those of its subject. -/
theorem contents_addToBuffer {state : State} {data : Triple} {triples : List Triple}
    (before : FiniteMap.contents state.tupleBuffer data.subject = held predList triples) :
    FiniteMap.contents (addToBuffer predList state data).tupleBuffer =
      Function.update (FiniteMap.contents state.tupleBuffer) data.subject
        (held predList (triples ++ [data])) := by
  rw [addToBuffer]
  cases schema : FiniteMap.contents (predicates predList) data.predicate with
  | none =>
      have absent : data.predicate ∉ predList := by
        intro member
        rw [contents_predicates, if_pos member] at schema
        cases schema
      rw [held, known_concat, if_neg absent, ← held, ← before, Function.update_eq_self]
  | some field =>
      have member : data.predicate ∈ predList := by
        by_contra absent
        rw [contents_predicates, if_neg absent] at schema
        cases schema
      rw [held] at before
      rw [held, known_concat, if_pos member,
        if_neg (List.append_ne_nil_of_right_ne_nil _ (List.cons_ne_nil data []))]
      by_cases nothing : known predList triples = []
      · rw [if_pos nothing] at before
        simp only [before]
        rw [FiniteMap.contents_insert, nothing]
        rfl
      · rw [if_neg nothing] at before
        simp only [before]
        rw [FiniteMap.contents_insert, List.length_append]
        rfl

/-- The triples of a subject leave the buffer as its tuple. -/
theorem produceTupleForSubject_eq (distinct : predList.Nodup) {Out : Type}
    (create : List String → Out) {state : State} {subj : String} {triples : List Triple}
    (before : FiniteMap.contents state.tupleBuffer subj = held predList triples) :
    ∃ after, produceTupleForSubject predList create state subj =
        some (after, (tupleOf predList create triples).toList) ∧
      after.currentSubj = state.currentSubj ∧
      FiniteMap.contents after.tupleBuffer =
        Function.update (FiniteMap.contents state.tupleBuffer) subj none := by
  have produced := produceTuple_eq distinct create triples
  rw [produceTupleForSubject]
  rw [held] at before
  by_cases nothing : known predList triples = []
  · rw [if_pos nothing] at before
    rw [nothing] at produced
    refine ⟨state, ?_, rfl, ?_⟩
    · simp only [before]
      rw [← produced]
      rfl
    · rw [← before, Function.update_eq_self]
  · rw [if_neg nothing] at before
    obtain ⟨tuple, made⟩ : ∃ tuple, tupleOf predList create triples = some tuple := by
      rw [tupleOf]
      cases found : triples.find? fun triple => decide (triple.predicate ∈ predList) with
      | none =>
          rw [known, List.filter_eq_nil_iff.mpr (List.find?_eq_none.mp found)] at nothing
          exact absurd rfl nothing
      | some first => exact ⟨_, rfl⟩
    refine ⟨{ state with tupleBuffer := state.tupleBuffer.erase subj }, ?_, rfl, ?_⟩
    · simp only [before]
      rw [produced, made]
      rfl
    · exact FiniteMap.contents_erase _ _

end

end Tuplifier

end PipeFabric
