import Mathlib.Data.List.Pairwise

/-!
# Reading a history at a point in time

A history is a list of stamped events, the newest first, each of which may
write a value.  Reading it at time `t` gives the value of the newest write
whose stamp is at most `t`.
-/

namespace VersionedHistory

variable {Event Value : Type} (stamp : Event → Nat) (write : Event → Option Value)

/-- Stamps strictly decrease along the list. -/
def NewestFirst (history : List Event) : Prop :=
  history.Pairwise fun newer older => stamp older < stamp newer

def valueAt (history : List Event) (t : Nat) : Option Value :=
  history.findSome? fun event => if stamp event ≤ t then write event else none

variable {stamp write}

theorem valueAt_cons (event : Event) (history : List Event) (t : Nat) :
    valueAt stamp write (event :: history) t =
      if stamp event ≤ t then (write event).or (valueAt stamp write history t)
      else valueAt stamp write history t := by
  unfold valueAt
  rw [List.findSome?_cons]
  by_cases visible : stamp event ≤ t
  · simp only [visible, if_true]
    cases write event <;> rfl
  · simp only [visible, if_false]

/-- Newer events do not change the past. -/
theorem valueAt_cons_of_lt {event : Event} {history : List Event} {t : Nat}
    (newer : t < stamp event) :
    valueAt stamp write (event :: history) t = valueAt stamp write history t := by
  rw [valueAt_cons, if_neg (Nat.not_le.mpr newer)]

theorem valueAt_eq_none {history : List Event} {t : Nat}
    (silent : ∀ event ∈ history, stamp event ≤ t → write event = none) :
    valueAt stamp write history t = none := by
  unfold valueAt
  rw [List.findSome?_eq_none_iff]
  intro event member
  by_cases visible : stamp event ≤ t
  · simp [visible, silent event member visible]
  · simp [visible]

/-- The write that no later visible write hides is the one that is read. -/
theorem valueAt_eq_some {history : List Event} {t : Nat} {event : Event}
    {value : Value} (newestFirst : NewestFirst stamp history)
    (member : event ∈ history) (written : write event = some value)
    (visible : stamp event ≤ t)
    (last : ∀ later ∈ history, stamp event < stamp later → stamp later ≤ t →
      write later = none) :
    valueAt stamp write history t = some value := by
  induction history with
  | nil => cases member
  | cons head tail induction =>
      obtain ⟨headNewest, tailSorted⟩ := List.pairwise_cons.mp newestFirst
      rw [valueAt_cons]
      rcases List.mem_cons.mp member with same | inTail
      · subst event
        simp [visible, written]
      · have tailValue := induction tailSorted inTail fun later laterMember =>
          last later (List.mem_cons_of_mem head laterMember)
        by_cases headVisible : stamp head ≤ t
        · have silent := last head List.mem_cons_self
            (headNewest event inTail) headVisible
          simp [headVisible, silent, tailValue]
        · simp [headVisible, tailValue]

theorem NewestFirst.cons {event : Event} {history : List Event}
    (newestFirst : NewestFirst stamp history)
    (newer : ∀ older ∈ history, stamp older < stamp event) :
    NewestFirst stamp (event :: history) :=
  List.pairwise_cons.mpr ⟨newer, newestFirst⟩

theorem NewestFirst.eq_of_stamp {history : List Event}
    (newestFirst : NewestFirst stamp history) {left right : Event}
    (leftMember : left ∈ history) (rightMember : right ∈ history)
    (same : stamp left = stamp right) : left = right := by
  induction history with
  | nil => cases leftMember
  | cons head tail induction =>
      obtain ⟨headNewest, tailSorted⟩ := List.pairwise_cons.mp newestFirst
      rcases List.mem_cons.mp leftMember with leftHead | leftTail <;>
        rcases List.mem_cons.mp rightMember with rightHead | rightTail
      · rw [leftHead, rightHead]
      · have less := headNewest right rightTail
        rw [← leftHead, same] at less
        exact absurd less (Nat.lt_irrefl _)
      · have less := headNewest left leftTail
        rw [← rightHead, same] at less
        exact absurd less (Nat.lt_irrefl _)
      · exact induction tailSorted leftTail rightTail

end VersionedHistory
