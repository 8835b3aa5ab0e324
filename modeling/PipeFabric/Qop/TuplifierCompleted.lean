import PipeFabric.Library.ListPairs
import PipeFabric.Qop.Tuplifier

/-!
# Tuples from complete subjects

In the completed mode a tuple is published as soon as the buffer holds as many triples of a
subject as the schema has predicates.  Predicates that come repeatedly are counted as often.
-/

namespace PipeFabric

namespace Tuplifier

/-! ### What has to be published -/

/-- Every predicate of the schema is among those of the triples. -/
def AllReceived (predList : List String) (triples : List Triple) : Prop :=
  ∀ predicate ∈ predList, predicate ∈ triples.map fun triple => triple.predicate

instance (predList : List String) (triples : List Triple) :
    Decidable (AllReceived predList triples) :=
  inferInstanceAs (Decidable (∀ predicate ∈ predList, _))

/-- The triples of each subject since it was published last. -/
abbrev Pending : Type := String → List Triple

/-- What has to be published when a triple arrives. -/
def due (predList : List String) (pending : Pending) (data : Triple) : List (List String) :=
  let triples := pending data.subject ++ [data]
  if data.predicate ∈ predList ∧ AllReceived predList triples then
    [data.subject :: predList.map (lastValue triples)]
  else []

/-- A punctuation publishes all subjects. -/
def note {Payload : Type} (predList : List String) (pending : Pending) :
    StreamItem Triple Payload → Pending
  | .element data _ =>
      let triples := pending data.subject ++ [data]
      if data.predicate ∈ predList then
        Function.update pending data.subject
          (if AllReceived predList triples then [] else triples)
      else pending
  | .punctuation _ => fun _ => []

def pendingAfter {Payload : Type} (predList : List String)
    (items : List (StreamItem Triple Payload)) : Pending :=
  items.foldl (note predList) fun _ => []

theorem pendingAfter_concat {Payload : Type} (predList : List String)
    (items : List (StreamItem Triple Payload)) (item : StreamItem Triple Payload) :
    pendingAfter predList (items ++ [item]) = note predList (pendingAfter predList items) item :=
  List.foldl_concat _ _ _ _

/-- The operator takes the item, and for a triple it publishes what it has to. -/
def Keeps {Payload : Type} (predList : List String) (pending : Pending) (state : State)
    (item : StreamItem Triple Payload) : Prop :=
  ∃ next published, step predList id .COMPLETED state item = some (next, published) ∧
    ∀ data outdated, item = .element data outdated →
      published = (due predList pending data).map fun tuple => .element tuple false

/-- Between punctuations, tuples are published for complete subjects and for no others. -/
def PublishesComplete {Payload : Type} (predList : List String)
    (items : List (StreamItem Triple Payload)) : Prop :=
  ∀ seen item, seen ++ [item] <+: items → ∃ state published,
    Transducer.tryRun (step predList id .COMPLETED) init seen = some (state, published) ∧
      Keeps predList (pendingAfter predList seen) state item

/-- When as many triples with predicates of the schema have arrived for a subject as the
schema has predicates, no predicate has come twice, and none is twice in the schema.  A
punctuation finds no predicate that stands too far behind in a schema with repetitions. -/
def Distinct {Payload : Type} (predList : List String) (pending : Pending) :
    StreamItem Triple Payload → Prop
  | .element data _ =>
      let triples := pending data.subject ++ [data]
      data.predicate ∈ predList → triples.length = predList.dedup.length →
        (triples.map fun triple => triple.predicate).Nodup ∧ predList.Nodup
  | .punctuation _ => ∀ subject, ∀ triple ∈ pending subject,
      predList.idxOf triple.predicate < predList.dedup.length

section

variable {predList : List String} {triples : List Triple}

theorem known_eq_self (all : ∀ triple ∈ triples, triple.predicate ∈ predList) :
    known predList triples = triples :=
  List.filter_eq_self.mpr fun triple member => decide_eq_true (all triple member)

/-! ### Counting predicates -/

theorem AllReceived.le_length (received : AllReceived predList triples) :
    predList.dedup.length ≤ triples.length := by
  have within : predList.dedup ⊆ triples.map fun triple => triple.predicate :=
    fun predicate member => received predicate (List.mem_dedup.mp member)
  have shorter := (List.subperm_of_subset (List.nodup_dedup predList) within).length_le
  rwa [List.length_map] at shorter

/-- As many triples as predicates are complete if and only if no predicate is repeated. -/
theorem allReceived_iff (all : ∀ triple ∈ triples, triple.predicate ∈ predList)
    (count : triples.length = predList.dedup.length) :
    AllReceived predList triples ↔ (triples.map fun triple => triple.predicate).Nodup := by
  have length : (triples.map fun triple => triple.predicate).length = predList.dedup.length := by
    rw [List.length_map, count]
  constructor
  · intro received
    have within : predList.dedup ⊆ triples.map fun triple => triple.predicate :=
      fun predicate member => received predicate (List.mem_dedup.mp member)
    have same := (List.subperm_of_subset (List.nodup_dedup predList) within).perm_of_length_le
      (Nat.le_of_eq length)
    exact same.nodup (List.nodup_dedup predList)
  · intro nodup predicate member
    have within : (triples.map fun triple => triple.predicate) ⊆ predList.dedup := by
      intro other found
      obtain ⟨triple, among, rfl⟩ := List.mem_map.mp found
      exact List.mem_dedup.mpr (all triple among)
    have same := (List.subperm_of_subset nodup within).perm_of_length_le
      (Nat.le_of_eq length.symm)
    exact same.mem_iff.mpr (List.mem_dedup.mpr member)

/-! ### Fields -/

theorem length_fields {data fields : List String}
    (made : triples.foldlM
      (fun data it =>
        (FiniteMap.contents (predicates predList) it.predicate).bind fun field =>
          if field < data.length then some (data.set field it.object) else none) data =
        some fields) : fields.length = data.length := by
  induction triples generalizing data with
  | nil =>
      obtain rfl := Option.some.inj made
      rfl
  | cons triple triples induction =>
      rw [List.foldlM_cons] at made
      obtain ⟨next, done, rest⟩ := Option.bind_eq_some_iff.mp made
      obtain ⟨field, _, set⟩ := Option.bind_eq_some_iff.mp done
      split at set
      · obtain rfl := Option.some.inj set
        rw [induction rest, List.length_set]
      · cases set

theorem length_produceTuple {tuple : List String}
    (made : produceTuple predList id triples = some tuple) :
    tuple.length = predList.dedup.length + 1 := by
  rw [produceTuple] at made
  obtain ⟨front, _, rest⟩ := Option.bind_eq_some_iff.mp made
  obtain ⟨fields, done, rfl⟩ := Option.map_eq_some_iff.mp rest
  rw [id, length_fields done, List.length_set, List.length_replicate, length_predicates]

/-- A tuple can be made if and only if all its fields are there. -/
theorem produceTuple_isSome_iff (all : ∀ triple ∈ triples, triple.predicate ∈ predList)
    (nonempty : triples ≠ []) :
    (∃ tuple, produceTuple predList id triples = some tuple) ↔
      ∀ triple ∈ triples, predList.idxOf triple.predicate < predList.dedup.length := by
  have fields (data : List String) (length : data.length = predList.dedup.length + 1) :
      (∃ made, triples.foldlM
        (fun data it =>
          (FiniteMap.contents (predicates predList) it.predicate).bind fun field =>
            if field < data.length then some (data.set field it.object) else none) data =
          some made) ↔
        ∀ triple ∈ triples, predList.idxOf triple.predicate < predList.dedup.length := by
    clear nonempty
    induction triples generalizing data with
    | nil =>
        apply iff_of_true ⟨data, rfl⟩
        intro triple member
        cases member
    | cons triple triples induction =>
        obtain ⟨here, later⟩ := List.forall_mem_cons.mp all
        rw [List.foldlM_cons, fieldOf triple here, List.forall_mem_cons, length]
        by_cases fits : predList.idxOf triple.predicate < predList.dedup.length
        · rw [if_pos (Nat.succ_lt_succ fits), and_iff_right fits]
          exact induction later _ (by rw [List.length_set, length])
        · rw [if_neg (fun less => fits (Nat.lt_of_succ_lt_succ less))]
          refine iff_of_false ?_ (fun both => fits both.1)
          rintro ⟨made, done⟩
          cases done
  obtain ⟨front, rest, rfl⟩ := List.exists_cons_of_ne_nil nonempty
  rw [← fields ((List.replicate ((predicates predList).entries.length + 1) "").set 0
    front.subject)]
  · rw [produceTuple]
    simp only [List.head?_cons, Option.bind_some, Option.map_eq_some_iff, id, exists_eq_right]
  · rw [List.length_set, List.length_replicate, length_predicates]

/-! ### What leaves the buffer -/

/-- The buffer holds these triples of each subject. -/
structure Corresponds (predList : List String) (pending : Pending) (state : State) : Prop where
  subject : ∀ key, ∀ triple ∈ pending key, triple.subject = key
  known : ∀ key, ∀ triple ∈ pending key, triple.predicate ∈ predList
  buffer : ∀ key, FiniteMap.contents state.tupleBuffer key =
    if pending key = [] then none else some ⟨pending key, (pending key).length⟩

/-- Every subject has fewer triples than the schema has predicates. -/
def Short (predList : List String) (pending : Pending) : Prop :=
  ∀ key, pending key ≠ [] → (pending key).length < predList.dedup.length

variable {pending : Pending} {state : State}

theorem corresponds_empty (empty : state.tupleBuffer = ∅) :
    Corresponds predList (fun _ => []) state where
  subject key triple member := absurd member List.not_mem_nil
  known key triple member := absurd member List.not_mem_nil
  buffer key := by
    rw [empty, FiniteMap.contents_empty]
    rfl

theorem Corresponds.held (corresponds : Corresponds predList pending state) (key : String) :
    FiniteMap.contents state.tupleBuffer key = Tuplifier.held predList (pending key) := by
  rw [corresponds.buffer key, Tuplifier.held, known_eq_self (corresponds.known key)]

/-- What is in the buffer belongs to a subject that has triples. -/
theorem Corresponds.mem_entries_iff (corresponds : Corresponds predList pending state)
    {key : String} {bitem : BufferItem} :
    ⟨key, bitem⟩ ∈ state.tupleBuffer.entries ↔
      pending key ≠ [] ∧ bitem = ⟨pending key, (pending key).length⟩ := by
  rw [← FiniteMap.mem_contents_iff, corresponds.buffer key]
  by_cases nothing : pending key = []
  · rw [if_pos nothing]
    refine iff_of_false ?_ (fun both => both.1 nothing)
    intro found
    cases found
  · rw [if_neg nothing, and_iff_right nothing, Option.some.injEq, eq_comm]

/-- The items that are complete by their number of triples. -/
theorem Corresponds.mem_complete_iff (corresponds : Corresponds predList pending state)
    {key : String} {bitem : BufferItem} :
    ⟨key, bitem⟩ ∈ state.tupleBuffer.entries.filter
        (fun it => decide (it.2.matched = (predicates predList).entries.length)) ↔
      pending key ≠ [] ∧ bitem = ⟨pending key, (pending key).length⟩ ∧
        (pending key).length = predList.dedup.length := by
  rw [List.mem_filter, corresponds.mem_entries_iff, decide_eq_true_eq, length_predicates,
    and_assoc]
  constructor
  · rintro ⟨nonempty, rfl, count⟩
    exact ⟨nonempty, rfl, count⟩
  · rintro ⟨nonempty, rfl, count⟩
    exact ⟨nonempty, rfl, count⟩

/-- The buffer without the items that are complete. -/
theorem Corresponds.without (corresponds : Corresponds predList pending state) :
    Corresponds predList
      (fun key => if (pending key).length = predList.dedup.length then [] else pending key)
      { state with
        tupleBuffer := FiniteMap.filterValues
          (fun bitem => !decide (bitem.matched = (predicates predList).entries.length))
          state.tupleBuffer } where
  subject := by
    intro key triple member
    split at member
    · cases member
    · exact corresponds.subject key triple member
  known := by
    intro key triple member
    split at member
    · cases member
    · exact corresponds.known key triple member
  buffer := by
    intro key
    dsimp only
    rw [FiniteMap.contents_filterValues, length_predicates]
    dsimp only
    rw [corresponds.buffer key]
    by_cases nothing : pending key = []
    · rw [if_pos nothing, nothing, ite_self, if_pos rfl]
      rfl
    · rw [if_neg nothing]
      by_cases count : (pending key).length = predList.dedup.length
      · rw [if_pos count, if_pos rfl, Option.filter_some, if_neg (by simp [count])]
      · rw [if_neg count, if_neg nothing, Option.filter_some, if_pos (by simp [count])]

/-- While all subjects are short nothing is published. -/
theorem Corresponds.produce_nothing (corresponds : Corresponds predList pending state)
    (short : Short predList pending) :
    ∃ next, produceCompleteTuples predList id state = some (next, []) ∧
      Corresponds predList pending next := by
  have empty : state.tupleBuffer.entries.filter
      (fun it => decide (it.2.matched = (predicates predList).entries.length)) = [] := by
    apply List.eq_nil_iff_forall_not_mem.mpr
    rintro ⟨key, bitem⟩ member
    obtain ⟨nonempty, _, count⟩ := corresponds.mem_complete_iff.mp member
    exact Nat.ne_of_lt (short key nonempty) count
  have same : (fun key => if (pending key).length = predList.dedup.length then []
      else pending key) = pending := by
    funext key
    split
    · rename_i count
      by_contra other
      exact Nat.ne_of_lt (short key fun nothing => other nothing.symm) count
    · rfl
  have without := corresponds.without
  rw [same] at without
  refine ⟨_, ?_, without⟩
  rw [produceCompleteTuples, empty]
  rfl

/-- One subject leaves the buffer when its triples are as many as the predicates. -/
theorem Corresponds.produce_one (corresponds : Corresponds predList pending state)
    (subject : String) (nonempty : pending subject ≠ [])
    (count : (pending subject).length = predList.dedup.length)
    (short : Short predList (Function.update pending subject [])) :
    ∃ next, produceCompleteTuples predList id state =
        (produceTuple predList id (pending subject)).map (fun tuple => (next, [tuple])) ∧
      Corresponds predList (Function.update pending subject []) next := by
  have others (key : String) (other : key ≠ subject) (some : pending key ≠ []) :
      (pending key).length ≠ predList.dedup.length := by
    have fewer := short key
    rw [Function.update_of_ne other] at fewer
    exact Nat.ne_of_lt (fewer some)
  have single : state.tupleBuffer.entries.filter
      (fun it => decide (it.2.matched = (predicates predList).entries.length)) =
        [⟨subject, ⟨pending subject, (pending subject).length⟩⟩] := by
    apply List.perm_singleton.mp
    apply (List.perm_ext_iff_of_nodup (state.tupleBuffer.nodupKeys.nodup.filter _)
      (List.nodup_singleton _)).mpr
    rintro ⟨key, bitem⟩
    rw [corresponds.mem_complete_iff, List.mem_singleton]
    constructor
    · rintro ⟨some, rfl, full⟩
      by_cases here : key = subject
      · rw [here]
      · exact absurd full (others key here some)
    · intro equal
      cases equal
      exact ⟨nonempty, rfl, count⟩
  have same : (fun key => if (pending key).length = predList.dedup.length then []
      else pending key) = Function.update pending subject [] := by
    funext key
    by_cases here : key = subject
    · rw [here, if_pos count, Function.update_self]
    · rw [Function.update_of_ne here]
      split
      · rename_i full
        by_contra some
        exact others key here (fun nothing => some nothing.symm) full
      · rfl
  have without := corresponds.without
  rw [same] at without
  refine ⟨_, ?_, without⟩
  rw [produceCompleteTuples, single, List.mapM_cons, List.mapM_nil]
  cases produceTuple predList id (pending subject) with
  | none => rfl
  | some tuple => rfl

/-- All subjects leave the buffer if their tuples can be made. -/
theorem Corresponds.produce_all (corresponds : Corresponds predList pending state) :
    (∃ next published, produceAllTuples predList id state = some (next, published)) ↔
      ∀ subject, ∀ triple ∈ pending subject,
        predList.idxOf triple.predicate < predList.dedup.length := by
  have made (key : String) (nonempty : pending key ≠ []) :=
    produceTuple_isSome_iff (corresponds.known key) nonempty
  constructor
  · rintro ⟨next, published, done⟩
    obtain ⟨tuples, mapped, _⟩ := Option.map_eq_some_iff.mp done
    intro subject triple member
    have nonempty := List.ne_nil_of_mem member
    obtain ⟨tuple, _, produced⟩ := ListPairs.exists_of_mem_left
      (ListPairs.forall₂_of_mapM mapped) (corresponds.mem_entries_iff.mpr ⟨nonempty, rfl⟩)
    exact (made subject nonempty).mp ⟨tuple, produced⟩ triple member
  · intro fits
    obtain ⟨tuples, mapped⟩ : ∃ tuples, (state.tupleBuffer.entries.mapM fun it =>
        produceTuple predList id it.2.tripleList) = some tuples := by
      apply ListPairs.mapM_eq_some_of_forall
      rintro ⟨key, bitem⟩ member
      obtain ⟨nonempty, rfl⟩ := corresponds.mem_entries_iff.mp member
      exact (made key nonempty).mpr (fits key)
    exact ⟨{ state with tupleBuffer := ∅ }, tuples, by rw [produceAllTuples, mapped]; rfl⟩

/-! ### Steps -/

theorem Corresponds.add (corresponds : Corresponds predList pending state) {data : Triple}
    (member : data.predicate ∈ predList) :
    Corresponds predList
      (Function.update pending data.subject (pending data.subject ++ [data]))
      (addToBuffer predList state data) where
  subject := by
    intro key triple among
    by_cases here : key = data.subject
    · subst here
      rw [Function.update_self] at among
      rcases List.mem_append.mp among with before | last
      · exact corresponds.subject data.subject triple before
      · rw [List.mem_singleton.mp last]
    · rw [Function.update_of_ne here] at among
      exact corresponds.subject key triple among
  known := by
    intro key triple among
    by_cases here : key = data.subject
    · subst here
      rw [Function.update_self] at among
      rcases List.mem_append.mp among with before | last
      · exact corresponds.known data.subject triple before
      · rw [List.mem_singleton.mp last]
        exact member
    · rw [Function.update_of_ne here] at among
      exact corresponds.known key triple among
  buffer := by
    intro key
    have all : Tuplifier.known predList (pending data.subject ++ [data]) =
        pending data.subject ++ [data] := by
      rw [known_concat, known_eq_self (corresponds.known data.subject), if_pos member]
    rw [contents_addToBuffer (corresponds.held data.subject)]
    by_cases here : key = data.subject
    · subst here
      rw [Function.update_self, Function.update_self, Tuplifier.held, all]
    · rw [Function.update_of_ne here, Function.update_of_ne here]
      exact corresponds.buffer key

/-- A triple with an unknown predicate has no effect. -/
theorem addToBuffer_unknown (state : State) {data : Triple}
    (absent : data.predicate ∉ predList) : addToBuffer predList state data = state := by
  rw [addToBuffer, contents_predicates, if_neg absent]

theorem tupleOf_complete {subject : String} (nonempty : triples ≠ [])
    (same : ∀ triple ∈ triples, triple.subject = subject)
    (all : ∀ triple ∈ triples, triple.predicate ∈ predList) :
    tupleOf predList id triples = some (subject :: predList.map (lastValue triples)) := by
  obtain ⟨front, rest, rfl⟩ := List.exists_cons_of_ne_nil nonempty
  have first : (front :: rest).find? (fun triple => triple.predicate ∈ predList) =
      some front :=
    List.find?_cons_of_pos (decide_eq_true (all front List.mem_cons_self))
  rw [tupleOf, first, Option.map_some, same front List.mem_cons_self]
  rfl

/-- The tuple of as many triples as there are predicates is right if and only if none of
these is repeated. -/
theorem produceTuple_right_iff {subject : String} (nonempty : triples ≠ [])
    (same : ∀ triple ∈ triples, triple.subject = subject)
    (all : ∀ triple ∈ triples, triple.predicate ∈ predList)
    (count : triples.length = predList.dedup.length) :
    (AllReceived predList triples ∧ produceTuple predList id triples =
        some (subject :: predList.map (lastValue triples))) ↔
      (triples.map fun triple => triple.predicate).Nodup ∧ predList.Nodup := by
  rw [allReceived_iff all count, and_congr_right_iff]
  intro _
  constructor
  · intro made
    have length := length_produceTuple made
    rw [List.length_cons, List.length_map, Nat.add_right_cancel_iff] at length
    exact List.dedup_eq_self.mp ((List.dedup_sublist predList).eq_of_length length.symm)
  · intro distinct
    have made := produceTuple_eq distinct id triples
    rw [known_eq_self all, tupleOf_complete nonempty same all] at made
    exact made

section

variable {Payload : Type}

theorem step_element (data : Triple) (outdated : Bool) :
    (step predList id .COMPLETED state (.element data outdated) :
        Option (State × List (StreamItem (List String) Payload))) =
      (produceCompleteTuples predList id (addToBuffer predList state data)).map
        fun produced => (produced.1, produced.2.map fun tuple => .element tuple false) :=
  rfl

theorem step_punctuation (pp : Punctuation Payload) :
    step predList id .COMPLETED state (.punctuation pp) =
      (produceAllTuples predList id state).map fun produced =>
        (produced.1,
          (produced.2.map fun tuple => .element tuple false) ++ [.punctuation pp]) :=
  rfl

/-- What the operator publishes for a triple when it gives this many tuples. -/
theorem keeps_element_iff {data : Triple} {outdated : Bool} {next : State}
    {made : Option (List (List String))}
    (produced : produceCompleteTuples predList id (addToBuffer predList state data) =
      made.map fun tuples => (next, tuples)) :
    Keeps predList pending state (.element data outdated : StreamItem Triple Payload) ↔
      made = some (due predList pending data) := by
  have injective : Function.Injective fun tuple : List String =>
      (.element tuple false : StreamItem (List String) Payload) := by
    intro first second same
    exact (StreamItem.element.inj same).1
  rw [Keeps, step_element, produced]
  cases made with
  | none =>
      refine iff_of_false ?_ ?_
      · rintro ⟨next, published, done, _⟩
        cases done
      · intro equal
        cases equal
  | some tuples =>
      constructor
      · rintro ⟨_, published, done, right⟩
        obtain ⟨_, rfl⟩ := Prod.mk.inj (Option.some.inj done)
        exact congrArg some (List.map_injective_iff.mpr injective (right data outdated rfl))
      · intro equal
        refine ⟨next, _, rfl, ?_⟩
        intro other late here
        obtain ⟨rfl, _⟩ := StreamItem.element.inj here
        rw [Option.some.inj equal]

/-- The operator goes on with the triples that are noted. -/
def Advances (predList : List String) (pending : Pending) (state : State)
    (item : StreamItem Triple Payload) : Prop :=
  Short predList (note predList pending item) ∧ ∃ next published,
    step predList id .COMPLETED state item = some (next, published) ∧
      Corresponds predList (note predList pending item) next

theorem advances_element {data : Triple} {outdated : Bool} {next : State}
    {tuples : List (List String)}
    (produced : produceCompleteTuples predList id (addToBuffer predList state data) =
      some (next, tuples))
    (short : Short predList (note predList pending
      (.element data outdated : StreamItem Triple Payload)))
    (corresponds : Corresponds predList (note predList pending
      (.element data outdated : StreamItem Triple Payload)) next) :
    Advances predList pending state
      (.element data outdated : StreamItem Triple Payload) := by
  refine ⟨short, next, tuples.map fun tuple => .element tuple false, ?_, corresponds⟩
  rw [step_element, produced]
  rfl

theorem Short.update (short : Short predList pending) (subject : String)
    {collected : List Triple}
    (fewer : collected ≠ [] → collected.length < predList.dedup.length) :
    Short predList (Function.update pending subject collected) := by
  intro key nonempty
  by_cases here : key = subject
  · subst here
    rw [Function.update_self] at nonempty ⊢
    exact fewer nonempty
  · rw [Function.update_of_ne here] at nonempty ⊢
    exact short key nonempty

theorem Corresponds.element_unknown (corresponds : Corresponds predList pending state)
    (short : Short predList pending) {data : Triple} (absent : data.predicate ∉ predList)
    (outdated : Bool) :
    Keeps predList pending state (.element data outdated : StreamItem Triple Payload) ∧
      Advances predList pending state
        (.element data outdated : StreamItem Triple Payload) := by
  obtain ⟨next, produced, after⟩ := corresponds.produce_nothing short
  have nothing : due predList pending data = [] := if_neg fun both => absent both.1
  have noted : note predList pending (.element data outdated : StreamItem Triple Payload) =
      pending := if_neg absent
  rw [← addToBuffer_unknown state absent] at produced
  have given : produceCompleteTuples predList id (addToBuffer predList state data) =
      (some []).map fun tuples => (next, tuples) := produced
  constructor
  · rw [keeps_element_iff given, nothing]
  · apply advances_element produced
    · rw [noted]
      exact short
    · rw [noted]
      exact after

theorem Corresponds.element_short (corresponds : Corresponds predList pending state)
    (short : Short predList pending) {data : Triple} (member : data.predicate ∈ predList)
    (fewer : (pending data.subject ++ [data]).length < predList.dedup.length)
    (outdated : Bool) :
    Keeps predList pending state (.element data outdated : StreamItem Triple Payload) ∧
      Advances predList pending state
        (.element data outdated : StreamItem Triple Payload) := by
  have incomplete : ¬AllReceived predList (pending data.subject ++ [data]) :=
    fun received => Nat.not_le_of_lt fewer received.le_length
  have still := short.update data.subject fun _ => fewer
  obtain ⟨next, produced, after⟩ := (corresponds.add member).produce_nothing still
  have nothing : due predList pending data = [] := if_neg fun both => incomplete both.2
  have noted : note predList pending (.element data outdated : StreamItem Triple Payload) =
      Function.update pending data.subject (pending data.subject ++ [data]) := by
    rw [note, if_pos member, if_neg incomplete]
  have given : produceCompleteTuples predList id (addToBuffer predList state data) =
      (some []).map fun tuples => (next, tuples) := produced
  constructor
  · rw [keeps_element_iff given, nothing]
  · apply advances_element produced
    · rw [noted]
      exact still
    · rw [noted]
      exact after

/-- The triple that makes up the number has to complete its subject. -/
theorem Corresponds.element_full (corresponds : Corresponds predList pending state)
    (short : Short predList pending) {data : Triple} (member : data.predicate ∈ predList)
    (count : (pending data.subject ++ [data]).length = predList.dedup.length)
    (outdated : Bool) :
    (Keeps predList pending state (.element data outdated : StreamItem Triple Payload) ↔
        Distinct predList pending (.element data outdated : StreamItem Triple Payload)) ∧
      (Distinct predList pending (.element data outdated : StreamItem Triple Payload) →
        Advances predList pending state
          (.element data outdated : StreamItem Triple Payload)) := by
  have added := corresponds.add member
  have same := added.subject data.subject
  have all := added.known data.subject
  have nonempty : pending data.subject ++ [data] ≠ [] :=
    List.append_ne_nil_of_right_ne_nil _ (List.cons_ne_nil data [])
  have left : Short predList (Function.update pending data.subject []) :=
    short.update data.subject fun some => absurd rfl some
  rw [Function.update_self] at same all
  obtain ⟨next, produced, after⟩ := added.produce_one data.subject
    (by rwa [Function.update_self]) (by rwa [Function.update_self])
    (by rwa [Function.update_idem])
  rw [Function.update_self] at produced
  rw [Function.update_idem] at after
  have right := produceTuple_right_iff nonempty same all count
  have distinct : Distinct predList pending
      (.element data outdated : StreamItem Triple Payload) ↔
        ((pending data.subject ++ [data]).map fun triple => triple.predicate).Nodup ∧
          predList.Nodup :=
    ⟨fun condition => condition member count, fun both _ _ => both⟩
  have given : produceCompleteTuples predList id (addToBuffer predList state data) =
      ((produceTuple predList id (pending data.subject ++ [data])).map fun tuple =>
        [tuple]).map fun tuples => (next, tuples) := by
    rw [produced, Option.map_map]
    rfl
  rw [distinct, ← right]
  constructor
  · rw [keeps_element_iff given, due]
    by_cases received : AllReceived predList (pending data.subject ++ [data])
    · rw [if_pos ⟨member, received⟩, and_iff_right received, Option.map_eq_some_iff]
      simp
    · rw [if_neg fun both => received both.2]
      refine iff_of_false ?_ fun both => received both.1
      intro equal
      obtain ⟨tuple, _, empty⟩ := Option.map_eq_some_iff.mp equal
      cases empty
  · rintro ⟨received, made⟩
    have noted : note predList pending
        (.element data outdated : StreamItem Triple Payload) =
          Function.update pending data.subject [] := by
      rw [note, if_pos member, if_pos received]
    rw [made] at produced
    apply advances_element produced
    · rw [noted]
      exact left
    · rw [noted]
      exact after

theorem Corresponds.punctuation (corresponds : Corresponds predList pending state)
    (pp : Punctuation Payload) :
    (Keeps predList pending state (.punctuation pp) ↔
        Distinct predList pending (.punctuation pp)) ∧
      (Distinct predList pending (.punctuation pp) →
        Advances predList pending state (.punctuation pp)) := by
  have possible : (∃ next tuples, produceAllTuples predList id state = some (next, tuples)) ↔
      Distinct predList pending (.punctuation pp) := corresponds.produce_all
  rw [← possible]
  constructor
  · constructor
    · rintro ⟨next, published, done, _⟩
      rw [step_punctuation] at done
      obtain ⟨⟨after, tuples⟩, produced, _⟩ := Option.map_eq_some_iff.mp done
      exact ⟨after, tuples, produced⟩
    · rintro ⟨next, tuples, produced⟩
      refine ⟨next, (tuples.map fun tuple => .element tuple false) ++ [.punctuation pp],
        ?_, ?_⟩
      · rw [step_punctuation, produced]
        rfl
      · intro data outdated impossible
        cases impossible
  · rintro ⟨next, tuples, produced⟩
    have empty : next.tupleBuffer = ∅ := by
      obtain ⟨_, _, equal⟩ := Option.map_eq_some_iff.mp produced
      cases equal
      rfl
    refine ⟨fun key nonempty => absurd rfl nonempty, next,
      (tuples.map fun tuple => .element tuple false) ++ [.punctuation pp], ?_,
      corresponds_empty empty⟩
    rw [step_punctuation, produced]
    rfl

/-- An item is treated as it should be if and only if it satisfies the condition, and then
the operator goes on. -/
theorem Corresponds.arrival (corresponds : Corresponds predList pending state)
    (short : Short predList pending) (item : StreamItem Triple Payload) :
    (Keeps predList pending state item ↔ Distinct predList pending item) ∧
      (Distinct predList pending item → Advances predList pending state item) := by
  cases item with
  | punctuation pp => exact corresponds.punctuation pp
  | element data outdated =>
      by_cases member : data.predicate ∈ predList
      · have most : (pending data.subject ++ [data]).length ≤ predList.dedup.length := by
          rw [List.length_append, List.length_singleton]
          by_cases first : pending data.subject = []
          · rw [first]
            exact List.length_pos_of_mem (List.mem_dedup.mpr member)
          · exact short data.subject first
        rcases Nat.lt_or_eq_of_le most with fewer | count
        · obtain ⟨keeps, advances⟩ := corresponds.element_short short member fewer outdated
          refine ⟨iff_of_true keeps ?_, fun _ => advances⟩
          intro _ full
          exact absurd full (Nat.ne_of_lt fewer)
        · exact corresponds.element_full short member count outdated
      · obtain ⟨keeps, advances⟩ := corresponds.element_unknown short member outdated
        refine ⟨iff_of_true keeps ?_, fun _ => advances⟩
        intro known
        exact absurd known member

/-! ### Streams -/

/-- The operator has taken these items and noted their triples. -/
def Running (predList : List String) (seen : List (StreamItem Triple Payload)) : Prop :=
  ∃ state published,
    Transducer.tryRun (step predList id .COMPLETED) init seen = some (state, published) ∧
      Corresponds predList (pendingAfter predList seen) state ∧
      Short predList (pendingAfter predList seen)

theorem running_nil (predList : List String) :
    Running predList ([] : List (StreamItem Triple Payload)) :=
  ⟨init, [], rfl, corresponds_empty rfl, fun _ nonempty => absurd rfl nonempty⟩

/-- The operator publishes tuples for the complete subjects and for no others if and only if
the triples of a subject are complete whenever they are as many as the predicates. -/
theorem tuplifier_completed_iff (predList : List String)
    (items : List (StreamItem Triple Payload)) :
    PublishesComplete predList items ↔ ∀ seen item, seen ++ [item] <+: items →
      Distinct predList (pendingAfter predList seen) item := by
  apply Transducer.forall_promises_iff (running_nil predList)
  · rintro seen item _ ⟨state, published, ran, corresponds, short⟩
    obtain ⟨right, advances⟩ := corresponds.arrival short item
    constructor
    · rw [← right]
      constructor
      · rintro ⟨other, _, again, keeps⟩
        rw [ran] at again
        cases again
        exact keeps
      · intro keeps
        exact ⟨state, published, ran, keeps⟩
    · intro distinct
      obtain ⟨next, after, last, stepped, corresponds⟩ := advances distinct
      refine ⟨after, published ++ last, ?_, ?_, ?_⟩
      · rw [Transducer.tryRun_concat, ran, Option.bind_some, stepped]
        rfl
      · rw [pendingAfter_concat]
        exact corresponds
      · rw [pendingAfter_concat]
        exact next

end

/-- A price that comes twice counts for the name. -/
theorem not_tuplifier_completed :
    ¬∀ (predList : List String) (items : List (StreamItem Triple Nat)),
      PublishesComplete predList items := by
  intro always
  obtain ⟨state, published, ran, next, tuples, stepped, right⟩ :=
    always ["name", "price"]
      [.element ⟨"a", "price", "4"⟩ false, .element ⟨"a", "price", "5"⟩ false]
      [.element ⟨"a", "price", "4"⟩ false] (.element ⟨"a", "price", "5"⟩ false)
      (List.prefix_refl _)
  have first : (Transducer.tryRun (step ["name", "price"] id .COMPLETED) init
      [.element ⟨"a", "price", "4"⟩ false] :
        Option (State × List (StreamItem (List String) Nat))).map (fun final => final.2) =
      some [] := by decide
  have both : (Transducer.tryRun (step ["name", "price"] id .COMPLETED) init
      ([.element ⟨"a", "price", "4"⟩ false] ++ [.element ⟨"a", "price", "5"⟩ false]) :
        Option (State × List (StreamItem (List String) Nat))).map (fun final => final.2) =
      some [.element ["a", "", "5"] false] := by decide
  have nothing : due ["name", "price"] (pendingAfter ["name", "price"]
      [(.element ⟨"a", "price", "4"⟩ false : StreamItem Triple Nat)]) ⟨"a", "price", "5"⟩ =
        [] := by decide
  rw [Transducer.tryRun_concat, ran, Option.bind_some, stepped, right _ _ rfl, nothing] at both
  rw [ran] at first
  cases first
  cases both

end

end Tuplifier

end PipeFabric
