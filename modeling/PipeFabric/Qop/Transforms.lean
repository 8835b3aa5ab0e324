import PipeFabric.Library.ViewMaintenance

/-!
# Operators that take one element at a time

`Where` and `Map` hand the flag of an element to the user's function and publish the
result with the same flag; `Merge` publishes what arrives on any of its channels.  A
function that does not look at the flag makes them replace every live element by its
image.
-/

namespace PipeFabric

open ChangeStream

variable {T In Out : Type}

/-- `Where`, with its filter predicate. -/
structure Where (T : Type) where
  mFunc : T → Bool → Bool

/-- `Map`, with its projection function. -/
structure Map (In Out : Type) where
  mFunc : In → Bool → Out

namespace Where

/-- `Where::processDataElement`. -/
def processDataElement (op : Where T) (input : Change T) : List (Change T) :=
  if op.mFunc input.data input.outdated then [⟨input.data, input.outdated⟩] else []

/-- The predicate accepts an outdated element as it accepted the new one. -/
def IgnoresFlag (op : Where T) : Prop := ∀ data, op.mFunc data true = op.mFunc data false

/-- What is left of an element. -/
def image (op : Where T) (data : T) : Multiset T :=
  if op.mFunc data false then {data} else 0

theorem replaces [DecidableEq T] {op : Where T} (ignores : op.IgnoresFlag) :
    Replaces op.processDataElement op.image := by
  constructor
  · intro data held
    unfold processDataElement image
    by_cases accepted : op.mFunc data false = true
    · rw [if_pos accepted, if_pos accepted]
      exact leads_insertAll [data] held
    · rw [if_neg accepted, if_neg accepted]
      simp
  · intro data held
    unfold processDataElement image
    rw [ignores data]
    by_cases accepted : op.mFunc data false = true
    · rw [if_pos accepted, if_pos accepted]
      exact leads_retractAll [data] held
    · rw [if_neg accepted, if_neg accepted]
      simp

theorem bind_image (op : Where T) (held : Multiset T) :
    held.bind op.image = held.filter fun data => op.mFunc data false := by
  induction held using Multiset.induction_on with
  | empty => rfl
  | cons data held induction =>
      rw [Multiset.cons_bind, induction, image, Multiset.filter_cons]

end Where

namespace Map

/-- `Map::processDataElement`. -/
def processDataElement (op : Map In Out) (input : Change In) : List (Change Out) :=
  [⟨op.mFunc input.data input.outdated, input.outdated⟩]

/-- The projection of an outdated element is that of the new one. -/
def IgnoresFlag (op : Map In Out) : Prop :=
  ∀ data, op.mFunc data true = op.mFunc data false

theorem replaces [DecidableEq Out] {op : Map In Out} (ignores : op.IgnoresFlag) :
    Replaces op.processDataElement fun data => {op.mFunc data false} := by
  constructor
  · intro data held
    exact leads_insertAll [op.mFunc data false] held
  · intro data held
    unfold processDataElement
    rw [ignores data]
    exact leads_retractAll [op.mFunc data false] held

end Map

/-- `Merge::processDataElement`. -/
def Merge.processDataElement (input : Change T) : List (Change T) :=
  [⟨input.data, input.outdated⟩]

theorem Merge.replaces [DecidableEq T] :
    Replaces (Merge.processDataElement (T := T)) fun data => {data} := by
  constructor
  · intro data held
    exact leads_insertAll [data] held
  · intro data held
    exact leads_retractAll [data] held

end PipeFabric
