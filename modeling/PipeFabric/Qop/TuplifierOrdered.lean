import PipeFabric.Library.GroupCut
import PipeFabric.Qop.Tuplifier

/-!
# Tuples from ordered triples

In the ordered mode a tuple is published for every run of triples with one subject.  A run
ends with the first triple of another subject, or with a punctuation.
-/

namespace PipeFabric

namespace Tuplifier

open GroupCut

/-! ### Runs of triples -/

/-- A triple with another subject ends the run. -/
def differs (first triple : Triple) : Bool := triple.subject ≠ first.subject

/-- The runs of consecutive triples with one subject that have ended, and the one that may
go on. -/
def runs (triples : List Triple) : List (List Triple) × List Triple :=
  cut differs [] triples

theorem runs_concat (triples : List Triple) (data : Triple) :
    runs (triples ++ [data]) =
      if closesGroup differs (runs triples).2 data then
        ((runs triples).1 ++ [(runs triples).2], [data])
      else ((runs triples).1, (runs triples).2 ++ [data]) :=
  cut_concat [] triples data

/-- The runs make up the stream.  None that has ended is empty, the triples of a run have one
subject, and the next run begins with another one. -/
theorem runs_maximal (triples : List Triple) :
    (runs triples).1.flatten ++ (runs triples).2 = triples ∧ IsCut differs (runs triples) :=
  ⟨flatten_cut [] triples, isCut_cut triples⟩

/-- A stream, cut by its punctuations. -/
structure Segments (Payload : Type) where
  closed : List (List Triple × Punctuation Payload)
  last : List Triple

namespace Segments

variable {Payload : Type}

def add (segments : Segments Payload) : StreamItem Triple Payload → Segments Payload
  | .element data _ => { segments with last := segments.last ++ [data] }
  | .punctuation pp => ⟨segments.closed ++ [(segments.last, pp)], []⟩

def ofItems (items : List (StreamItem Triple Payload)) : Segments Payload :=
  items.foldl add ⟨[], []⟩

theorem ofItems_concat (items : List (StreamItem Triple Payload))
    (item : StreamItem Triple Payload) :
    ofItems (items ++ [item]) = (ofItems items).add item :=
  List.foldl_concat _ _ _ _

end Segments

section

variable {Out Payload : Type} (predList : List String) (create : List String → Out)

/-- The tuples of these runs, as far as they have known predicates. -/
def tuplesOf (groups : List (List Triple)) : List (StreamItem Out Payload) :=
  (groups.filterMap (tupleOf predList create)).map fun tuple => .element tuple false

/-- What has to be published for a segment and the punctuation that ends it. -/
def closedSegment (segment : List Triple × Punctuation Payload) :
    List (StreamItem Out Payload) :=
  tuplesOf predList create ((runs segment.1).1 ++ [(runs segment.1).2]) ++
    [.punctuation segment.2]

/-- What has to be published for a stream: the runs that have ended in the order of the
stream, each segment with its punctuation behind it. -/
def orderedTuples (items : List (StreamItem Triple Payload)) :
    List (StreamItem Out Payload) :=
  (Segments.ofItems items).closed.flatMap (closedSegment predList create) ++
    tuplesOf predList create (runs (Segments.ofItems items).last).1

end

section

variable {Out Payload : Type} {predList : List String} {create : List String → Out}

theorem tuplesOf_append (groups others : List (List Triple)) :
    (tuplesOf predList create (groups ++ others) : List (StreamItem Out Payload)) =
      tuplesOf predList create groups ++ tuplesOf predList create others := by
  rw [tuplesOf, List.filterMap_append, List.map_append]
  rfl

theorem tuplesOf_single (group : List Triple) :
    (tuplesOf predList create [group] : List (StreamItem Out Payload)) =
      (tupleOf predList create group).toList.map fun tuple => .element tuple false := by
  rw [tuplesOf]
  cases made : tupleOf predList create group with
  | none => rw [List.filterMap_cons_none made, List.filterMap_nil, Option.toList_none]
  | some tuple => rw [List.filterMap_cons_some made, List.filterMap_nil, Option.toList_some]

/-! ### The open run -/

/-- The operator has the triples of the open run in its buffer, and no others. -/
structure Holds (predList : List String) (group : List Triple) (state : State) : Prop where
  subject : ∀ triple ∈ group, triple.subject = state.currentSubj
  named : group ≠ [] → state.currentSubj ≠ ""
  buffer : FiniteMap.contents state.tupleBuffer = fun key =>
    if key = state.currentSubj then held predList group else none

theorem Holds.contents {group : List Triple} {state : State}
    (holds : Holds predList group state) :
    FiniteMap.contents state.tupleBuffer state.currentSubj = held predList group := by
  rw [holds.buffer]
  exact if_pos rfl

theorem update_ite (key : String) (value other : Option BufferItem) :
    Function.update (fun place => if place = key then value else none) key other =
      fun place => if place = key then other else none := by
  funext place
  by_cases here : place = key
  · rw [here, Function.update_self, if_pos rfl]
  · rw [Function.update_of_ne here, if_neg here, if_neg here]

theorem held_nil : held predList [] = none := rfl

/-- A triple that goes on with the run. -/
theorem Holds.join {group : List Triple} {state : State} (holds : Holds predList group state)
    {data : Triple} (same : data.subject = state.currentSubj) (named : data.subject ≠ "") :
    Holds predList (group ++ [data]) (addToBuffer predList state data) := by
  have current := addToBuffer_currentSubj predList state data
  have before : FiniteMap.contents state.tupleBuffer data.subject = held predList group := by
    rw [same]
    exact holds.contents
  refine ⟨?_, ?_, ?_⟩
  · rw [current]
    intro triple member
    rcases List.mem_append.mp member with early | last
    · exact holds.subject triple early
    · rw [List.mem_singleton.mp last, same]
  · intro _
    rw [current, ← same]
    exact named
  · rw [contents_addToBuffer before, holds.buffer, current, ← same, update_ite]

theorem Holds.closesGroup_iff {group : List Triple} {state : State}
    (holds : Holds predList group state) (data : Triple) :
    closesGroup differs group data = true ↔ group ≠ [] ∧ data.subject ≠ state.currentSubj := by
  cases group with
  | nil => simp [closesGroup]
  | cons first group =>
      have subject := holds.subject first List.mem_cons_self
      simp [closesGroup, differs, subject]

/-- With an empty run the buffer is empty, whatever the subject. -/
theorem Holds.rename {state : State} (holds : Holds predList [] state) (subj : String) :
    Holds predList [] { state with currentSubj := subj } where
  subject triple member := absurd member List.not_mem_nil
  named nonempty := absurd rfl nonempty
  buffer := by
    rw [holds.buffer]
    funext key
    rw [held_nil, ite_self, ite_self]

/-- The run leaves the buffer. -/
theorem Holds.produce (distinct : predList.Nodup) (create : List String → Out)
    {group : List Triple} {state : State} (holds : Holds predList group state) :
    ∃ after, produceTupleForSubject predList create state state.currentSubj =
        some (after, (tupleOf predList create group).toList) ∧
      Holds predList [] after := by
  obtain ⟨after, done, current, contents⟩ :=
    produceTupleForSubject_eq distinct create holds.contents
  refine ⟨after, done, ?_, fun nonempty => absurd rfl nonempty, ?_⟩
  · intro triple member
    cases member
  · rw [contents, holds.buffer, update_ite, current]
    rfl

/-- A triple ends the run or goes on with it. -/
theorem Holds.element (distinct : predList.Nodup) (create : List String → Out)
    {group : List Triple} {state : State} (holds : Holds predList group state) {data : Triple} (named : data.subject ≠ "") :
    ∃ next, processDataElement predList create .ORDERED state data =
        some (next, if closesGroup differs group data then
          (tupleOf predList create group).toList else []) ∧
      Holds predList (if closesGroup differs group data then [data] else group ++ [data])
        next := by
  rw [processDataElement, if_pos rfl]
  by_cases first : state.currentSubj = ""
  · -- nothing has arrived before
    obtain rfl : group = [] := by
      by_contra nonempty
      exact holds.named nonempty first
    have joins : ¬ closesGroup differs [] data = true := Bool.false_ne_true
    have unnamed := (addToBuffer_currentSubj predList state data).trans first
    rw [if_pos (.inl first), if_neg joins, if_neg joins]
    dsimp only
    rw [if_pos unnamed, ← addToBuffer_rename]
    exact ⟨_, rfl, (holds.rename data.subject).join rfl named⟩
  by_cases same : data.subject = state.currentSubj
  · have joins : ¬ closesGroup differs group data = true := by
      rw [holds.closesGroup_iff]
      exact fun both => both.2 same
    have current := addToBuffer_currentSubj predList state data
    rw [if_pos (.inr same), if_neg joins, if_neg joins]
    dsimp only
    rw [if_neg (fun unnamed => first (current.symm.trans unnamed))]
    exact ⟨_, rfl, holds.join same named⟩
  · obtain ⟨after, done, empty⟩ := holds.produce distinct create
    have next : Holds predList [data]
        (addToBuffer predList { after with currentSubj := data.subject } data) :=
      (empty.rename data.subject).join rfl named
    rw [if_neg (not_or.mpr ⟨first, same⟩), done]
    by_cases ended : closesGroup differs group data = true
    · rw [if_pos ended, if_pos ended]
      exact ⟨_, rfl, next⟩
    · obtain rfl : group = [] := by
        by_contra nonempty
        exact ended ((holds.closesGroup_iff data).mpr ⟨nonempty, same⟩)
      rw [if_neg ended, if_neg ended]
      exact ⟨_, rfl, next⟩

/-! ### Streams -/

theorem holds_init : Holds predList [] init where
  subject triple member := absurd member List.not_mem_nil
  named nonempty := absurd rfl nonempty
  buffer := by
    rw [init, FiniteMap.contents_empty]
    funext key
    rw [held_nil, ite_self]

theorem orderedTuples_element (items : List (StreamItem Triple Payload)) (data : Triple)
    (outdated : Bool) :
    orderedTuples predList create (items ++ [.element data outdated]) =
      orderedTuples predList create items ++
        ((if closesGroup differs (runs (Segments.ofItems items).last).2 data then
          (tupleOf predList create (runs (Segments.ofItems items).last).2).toList
        else []).map fun tuple => .element tuple false) := by
  rw [orderedTuples, orderedTuples, Segments.ofItems_concat, Segments.add, runs_concat,
    List.append_assoc]
  dsimp only
  split
  · rw [tuplesOf_append, tuplesOf_single]
  · rw [List.map_nil, List.append_nil]

theorem orderedTuples_punctuation (items : List (StreamItem Triple Payload))
    (pp : Punctuation Payload) :
    orderedTuples predList create (items ++ [.punctuation pp]) =
      orderedTuples predList create items ++
        (((tupleOf predList create (runs (Segments.ofItems items).last).2).toList.map
          fun tuple => .element tuple false) ++ [.punctuation pp]) := by
  have nothing : (tuplesOf predList create (runs []).1 : List (StreamItem Out Payload)) = [] :=
    rfl
  rw [orderedTuples, orderedTuples, Segments.ofItems_concat, Segments.add,
    List.flatMap_append, List.flatMap_singleton, closedSegment, tuplesOf_append,
    tuplesOf_single, nothing]
  simp only [List.append_assoc, List.append_nil]

/-- For every stream of triples that have subjects and of punctuations, and for every schema
of distinct predicates, a tuple is published for every run with a known predicate, and that
of the open run before the punctuation that ends it. -/
theorem tuplifier_ordered_runs (distinct : predList.Nodup)
    {items : List (StreamItem Triple Payload)}
    (named : ∀ data outdated, .element data outdated ∈ items → data.subject ≠ "") :
    ∃ state, Transducer.tryRun (step predList create .ORDERED) init items =
      some (state, orderedTuples predList create items) := by
  suffices ∃ state, Transducer.tryRun (step predList create .ORDERED) init items =
      some (state, orderedTuples predList create items) ∧
        Holds predList (runs (Segments.ofItems items).last).2 state by
    obtain ⟨state, ran, _⟩ := this
    exact ⟨state, ran⟩
  induction items using List.reverseRecOn with
  | nil => exact ⟨init, rfl, holds_init⟩
  | append_singleton items item induction =>
      obtain ⟨state, ran, holds⟩ := induction fun data outdated member =>
        named data outdated (List.mem_append_left _ member)
      rw [Transducer.tryRun_concat, ran, Option.bind_some, Segments.ofItems_concat]
      cases item with
      | element data outdated =>
          obtain ⟨next, done, nextHolds⟩ := holds.element distinct create
            (named data outdated (List.mem_append_right _ List.mem_cons_self))
          refine ⟨next, ?_, ?_⟩
          · rw [orderedTuples_element, step, done]
            rfl
          · rw [Segments.add, runs_concat]
            split at nextHolds
            · rename_i ended
              rw [if_pos ended]
              exact nextHolds
            · rename_i joins
              rw [if_neg joins]
              exact nextHolds
      | punctuation pp =>
          obtain ⟨next, done, nextHolds⟩ := holds.produce distinct create
          refine ⟨next, ?_, nextHolds⟩
          rw [orderedTuples_punctuation, step, if_pos rfl, done]
          rfl

/-- Two values for a predicate, and a punctuation. -/
theorem tuplifier_ordered_prices :
    ∃ state, Transducer.tryRun (step ["name", "price"] id .ORDERED) init
        [.element ⟨"a", "price", "4"⟩ false, .element ⟨"a", "price", "5"⟩ false,
          .punctuation (⟨.EndOfStream, none, 7⟩ : Punctuation Nat)] =
      some (state, orderedTuples ["name", "price"] id
        [.element ⟨"a", "price", "4"⟩ false, .element ⟨"a", "price", "5"⟩ false,
          .punctuation ⟨.EndOfStream, none, 7⟩]) := by
  apply tuplifier_ordered_runs
  · decide
  · intro data outdated member
    simp only [List.mem_cons, StreamItem.element.injEq, reduceCtorEq, List.not_mem_nil,
      or_false] at member
    rcases member with ⟨rfl, _⟩ | ⟨rfl, _⟩
    · decide
    · decide

end

end Tuplifier

end PipeFabric
