import PipeFabric.Library.ChangeStream

/-!
# Output channels of an operator

An operator publishes elements on its data channel and punctuations on its
punctuation channel.  Subscribers are called synchronously, so the order of the
publish calls is the order in which a downstream operator sees them.
-/

namespace PipeFabric

/-- `Punctuation::PType`. -/
inductive PType where
  | None
  | EndOfStream
  | EndOfSubStream
  | WindowExpired
  | SlideExpired
  | TxBegin
  | TxCommit
  | TxAbort
  | All
  deriving DecidableEq

/-- One call of `publish`, on the data or on the punctuation channel. -/
inductive Published (α : Type) where
  | element (change : Change α)
  | punctuation (ptype : PType)
  deriving DecidableEq

namespace Published

variable {α : Type}

/-- What arrives on the data channel. -/
def changes (published : List (Published α)) : List (Change α) :=
  published.filterMap fun
    | .element change => some change
    | .punctuation _ => none

@[simp] theorem changes_nil : changes ([] : List (Published α)) = [] := rfl

@[simp] theorem changes_append (published later : List (Published α)) :
    changes (published ++ later) = changes published ++ changes later :=
  List.filterMap_append

@[simp] theorem changes_cons_element (change : Change α)
    (published : List (Published α)) :
    changes (.element change :: published) = change :: changes published := rfl

@[simp] theorem changes_cons_punctuation (ptype : PType)
    (published : List (Published α)) :
    changes (.punctuation ptype :: published) = changes published := rfl

/-- A series of `publish` calls on the data channel. -/
def publishAll (elements : List (Change α)) : List (Published α) :=
  elements.map .element

@[simp] theorem changes_publishAll (elements : List (Change α)) :
    changes (publishAll elements) = elements := by
  induction elements with
  | nil => rfl
  | cons change elements induction =>
      unfold publishAll at *
      simpa using induction

theorem changes_mono {published later : List (Published α)}
    (earlier : published <+: later) : changes published <+: changes later := by
  obtain ⟨rest, rfl⟩ := earlier
  rw [changes_append]
  exact List.prefix_append _ _

end Published

end PipeFabric
