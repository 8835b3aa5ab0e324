import PipeFabric.Qop.SHJoin
import PipeFabric.Qop.SlidingWindow
import PipeFabric.Qop.Transforms
import PipeFabric.Qop.TumblingWindow

/-!
# The operators of a query

A query is a tree of operators over numbered sources.  Subscribers are called
synchronously, so an element that arrives at a source goes through the whole tree
before the next one arrives, and of two branches the left one is connected first.
Elements of any schema are of the one type `T`, and `joinElements` puts two of them
together.  Windows are put on streams of new elements, joins on what windows and
tables publish.
-/

namespace PipeFabric

open ChangeStream Published

/-- An element that one of the sources publishes. -/
structure SourceElement (T : Type) where
  source : Nat
  change : Change T
  deriving DecidableEq

/-- The elements of one source. -/
def SourceElement.changesOf {T : Type} (number : Nat) (arrivals : List (SourceElement T)) :
    List (Change T) :=
  arrivals.filterMap fun arrival =>
    if arrival.source = number then some arrival.change else none

/-- A stream of single elements. -/
inductive StreamTree (T : Type) where
  | source (number : Nat)
  | where_ (op : Where T) (input : StreamTree T)
  | map (op : Map T T) (input : StreamTree T)
  | merge (left right : StreamTree T)

/-- What a stream publishes for an arriving element. -/
def StreamTree.publish {T : Type} : StreamTree T → SourceElement T → List (Change T)
  | .source number, arrival => if arrival.source = number then [arrival.change] else []
  | .where_ op input, arrival => (input.publish arrival).flatMap op.processDataElement
  | .map op input, arrival => (input.publish arrival).flatMap op.processDataElement
  | .merge left right, arrival =>
      (left.publish arrival ++ right.publish arrival).flatMap Merge.processDataElement

/-- A query over windows of streams and over sources that retract elements. -/
inductive QueryTree (T K : Type) where
  | source (number : Nat)
  | slidingWindow (op : Window T) (input : StreamTree T)
  | tumblingWindow (op : Window T) (input : StreamTree T)
  | where_ (op : Where T) (input : QueryTree T K)
  | map (op : Map T T) (input : QueryTree T K)
  | merge (left right : QueryTree T K)
  | join (op : SHJoin T T K) (joinElements : T → T → T) (left right : QueryTree T K)

namespace QueryTree

variable {T K : Type} [DecidableEq T] [DecidableEq K]

omit [DecidableEq T] [DecidableEq K] in
/-- The members of all operators of a query. -/
def State : QueryTree T K → Type
  | .source _ => Unit
  | .slidingWindow _ _ => Window.State T
  | .tumblingWindow _ _ => Window.State T
  | .where_ _ input => input.State
  | .map _ input => input.State
  | .merge left right => left.State × right.State
  | .join _ _ left right => (left.State × right.State) × SHJoin.State T T K

omit [DecidableEq T] [DecidableEq K] in
/-- What the constructors leave. -/
def start : (tree : QueryTree T K) → tree.State
  | .source _ => ()
  | .slidingWindow _ _ => Window.State.empty
  | .tumblingWindow _ _ => Window.State.empty
  | .where_ _ input => input.start
  | .map _ input => input.start
  | .merge left right => (left.start, right.start)
  | .join _ _ left right => ((left.start, right.start), SHJoin.State.empty)

/-- A window takes the elements of its stream one after the other. -/
def windowStep (processDataElement :
      Window.State T → Change T → Window.State T × List (Published T))
    (input : StreamTree T) (state : Window.State T) (arrival : SourceElement T) :
    Window.State T × List (Change T) :=
  let next := Transducer.run processDataElement state (input.publish arrival)
  (next.1, changes next.2)

/-- What a join publishes for a pair. -/
def publishJoined (joinElements : T → T → T) (pair : Change (T × T)) : List (Change T) :=
  [⟨joinElements pair.data.1 pair.data.2, pair.outdated⟩]

/-- An element arrives at the sources: what the operators hold then, and what the last
of them publishes. -/
def step : (tree : QueryTree T K) → tree.State → SourceElement T → tree.State × List (Change T)
  | .source number => fun state arrival =>
      (state, if arrival.source = number then [arrival.change] else [])
  | .slidingWindow op input => windowStep (SlidingWindow.processDataElement op) input
  | .tumblingWindow op input => windowStep (TumblingWindow.processDataElement op) input
  | .where_ op input => Transducer.through input.step op.processDataElement
  | .map op input => Transducer.through input.step op.processDataElement
  | .merge left right =>
      Transducer.through (Transducer.parallel left.step right.step id id)
        Merge.processDataElement
  | .join op joinElements left right =>
      Transducer.through
        (Transducer.cascade
          (Transducer.parallel left.step right.step JoinInput.left JoinInput.right)
          (SHJoin.processDataElement op))
        (publishJoined joinElements)

/-- Everything the query publishes for the elements that have arrived. -/
def published (tree : QueryTree T K) (arrivals : List (SourceElement T)) : List (Change T) :=
  (Transducer.run tree.step tree.start arrivals).2

/-- What arrives on the two channels of a join. -/
def feeds (left right : QueryTree T K) (arrivals : List (SourceElement T)) :
    List (JoinInput T T) :=
  (Transducer.run (Transducer.parallel left.step right.step JoinInput.left JoinInput.right)
    (left.start, right.start) arrivals).2

/-! ### What the operators publish -/

section

variable (arrivals : List (SourceElement T))

@[simp]
theorem published_nil (tree : QueryTree T K) : tree.published [] = [] := rfl

theorem published_concat (tree : QueryTree T K) (seen : List (SourceElement T))
    (arrival : SourceElement T) :
    ∃ latest, tree.published (seen ++ [arrival]) = tree.published seen ++ latest :=
  ⟨_, congrArg Prod.snd (Transducer.run_concat seen arrival)⟩

theorem published_source (number : Nat) :
    (source number : QueryTree T K).published arrivals =
      SourceElement.changesOf number arrivals := by
  induction arrivals using List.reverseRecOn with
  | nil => rfl
  | append_singleton seen arrival induction =>
      unfold published at induction ⊢
      rw [Transducer.run_concat, induction]
      unfold SourceElement.changesOf
      rw [List.filterMap_append]
      simp only [step, List.filterMap_cons, List.filterMap_nil]
      split
      · rfl
      · rfl

omit [DecidableEq T] in
theorem published_window {processDataElement :
      Window.State T → Change T → Window.State T × List (Published T)}
    {input : StreamTree T} {state : Window.State T} :
    (Transducer.run (windowStep processDataElement input) state arrivals).2 =
      changes (Transducer.run processDataElement state (arrivals.flatMap input.publish)).2 := by
  induction arrivals generalizing state with
  | nil => rfl
  | cons arrival arrivals induction =>
      rw [List.flatMap_cons, Transducer.run_append, changes_append]
      simp only [Transducer.run, windowStep, induction]

theorem published_slidingWindow (op : Window T) (input : StreamTree T) :
    (slidingWindow op input : QueryTree T K).published arrivals =
      changes (SlidingWindow.process op (arrivals.flatMap input.publish)).2 :=
  published_window arrivals

theorem published_tumblingWindow (op : Window T) (input : StreamTree T) :
    (tumblingWindow op input : QueryTree T K).published arrivals =
      changes (TumblingWindow.process op (arrivals.flatMap input.publish)).2 :=
  published_window arrivals

theorem published_where (op : Where T) (input : QueryTree T K) :
    (where_ op input).published arrivals =
      (input.published arrivals).flatMap op.processDataElement :=
  congrArg Prod.snd (Transducer.run_through input.step _ _ _)

theorem published_map (op : Map T T) (input : QueryTree T K) :
    (map op input).published arrivals =
      (input.published arrivals).flatMap op.processDataElement :=
  congrArg Prod.snd (Transducer.run_through input.step _ _ _)

theorem published_join (op : SHJoin T T K) (joinElements : T → T → T)
    (left right : QueryTree T K) :
    (join op joinElements left right).published arrivals =
      (SHJoin.process op (feeds left right arrivals)).2.flatMap (publishJoined joinElements) := by
  have whole := Transducer.run_through
    (Transducer.cascade
      (Transducer.parallel left.step right.step JoinInput.left JoinInput.right)
      (SHJoin.processDataElement op))
    (publishJoined joinElements) ((left.start, right.start), SHJoin.State.empty) arrivals
  rw [Transducer.run_cascade] at whole
  exact congrArg Prod.snd whole

theorem lefts_feeds (left right : QueryTree T K) :
    JoinInput.lefts (feeds left right arrivals) = left.published arrivals := by
  unfold JoinInput.lefts feeds
  apply Transducer.filterMap_parallel_left
  · exact fun _ => rfl
  · exact fun _ => rfl

theorem rights_feeds (left right : QueryTree T K) :
    JoinInput.rights (feeds left right arrivals) = right.published arrivals := by
  unfold JoinInput.rights feeds
  apply Transducer.filterMap_parallel_right
  · exact fun _ => rfl
  · exact fun _ => rfl

/-- For an arriving element a merge publishes what its left and then what its right
input publishes. -/
theorem published_merge_concat (left right : QueryTree T K) (seen : List (SourceElement T))
    (arrival : SourceElement T) :
    ∃ first second,
      left.published (seen ++ [arrival]) = left.published seen ++ first ∧
      right.published (seen ++ [arrival]) = right.published seen ++ second ∧
      (merge left right).published (seen ++ [arrival]) =
        (merge left right).published seen ++
          (first ++ second).flatMap Merge.processDataElement := by
  have whole : ∀ inputs, (merge left right).published inputs =
      (Transducer.run (Transducer.parallel left.step right.step id id)
        (left.start, right.start) inputs).2.flatMap Merge.processDataElement := fun inputs =>
    congrArg Prod.snd (Transducer.run_through _ _ _ inputs)
  refine ⟨_, _, congrArg Prod.snd (Transducer.run_concat seen arrival),
    congrArg Prod.snd (Transducer.run_concat seen arrival), ?_⟩
  rw [whole, whole, Transducer.run_concat, List.flatMap_append, Transducer.run_parallel]
  simp only [Transducer.parallel, List.map_id]

end

end QueryTree

end PipeFabric
