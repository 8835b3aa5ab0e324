import Mathlib.Data.List.Chain
import Mathlib.Data.List.Induction
import Mathlib.Data.List.Infix

/-!
# Cutting a stream into groups

A stream is cut into consecutive groups.  A group is closed by the first element that
its own first element tells to close it; this element begins the next group.  The last
group is still open.
-/

namespace GroupCut

variable {α : Type} (closes : α → α → Bool)

/-- The element closes the group. -/
def closesGroup (group : List α) (element : α) : Bool :=
  group.head?.any fun first => closes first element

/-- The closed groups and the open one, after a group that was open before. -/
def cut : List α → List α → List (List α) × List α
  | group, [] => ([], group)
  | group, element :: later =>
      if closesGroup closes group element then
        let rest := cut [element] later
        (group :: rest.1, rest.2)
      else cut (group ++ [element]) later

variable {closes}

/-- One more element either closes the open group or joins it. -/
theorem cut_concat (group elements : List α) (last : α) :
    cut closes group (elements ++ [last]) =
      if closesGroup closes (cut closes group elements).2 last then
        ((cut closes group elements).1 ++ [(cut closes group elements).2], [last])
      else ((cut closes group elements).1, (cut closes group elements).2 ++ [last]) := by
  induction elements generalizing group with
  | nil => rfl
  | cons element elements induction =>
      rw [List.cons_append, cut, cut]
      split
      · simp only [induction]
        split
        · rfl
        · rfl
      · exact induction (group ++ [element])

/-- No element is lost, and all keep their order. -/
theorem flatten_cut (group elements : List α) :
    (cut closes group elements).1.flatten ++ (cut closes group elements).2 =
      group ++ elements := by
  induction elements generalizing group with
  | nil => rw [cut, List.flatten_nil, List.nil_append, List.append_nil]
  | cons element elements induction =>
      rw [cut]
      split
      · rw [List.flatten_cons, List.append_assoc, induction, List.singleton_append]
      · rw [induction, List.append_assoc, List.singleton_append]

/-- The second group begins with an element that closes the first one. -/
def Follows (closes : α → α → Bool) (group next : List α) : Prop :=
  ∃ element rest, next = element :: rest ∧ closesGroup closes group element = true

/-- What makes groups the cut of a stream: none of the closed ones is empty, no element
of a group closes it, and the next group begins with one that does. -/
structure IsCut (closes : α → α → Bool) (groups : List (List α) × List α) : Prop where
  nonempty : ∀ group ∈ groups.1, group ≠ []
  within : ∀ group ∈ groups.1 ++ [groups.2], ∀ first rest, group = first :: rest →
    ∀ element ∈ rest, closes first element = false
  closing : (groups.1 ++ [groups.2]).IsChain (Follows closes)

theorem IsCut.close {closed : List (List α)} {group : List α} {last : α}
    (before : IsCut closes (closed, group)) (closing : closesGroup closes group last = true) :
    IsCut closes (closed ++ [group], [last]) where
  nonempty next member := by
    rcases List.mem_append.mp member with early | late
    · exact before.nonempty next early
    · rw [List.mem_singleton.mp late]
      rintro rfl
      cases closing
  within next member first rest same := by
    rcases List.mem_append.mp member with early | late
    · exact before.within next early first rest same
    · rw [List.mem_singleton.mp late] at same
      obtain ⟨_, rfl⟩ := List.cons.inj same
      exact fun _ absurdity => absurd absurdity List.not_mem_nil
  closing := by
    apply List.isChain_append.mpr ⟨before.closing, List.IsChain.singleton _, ?_⟩
    intro left isLast right isFirst
    rw [List.getLast?_concat] at isLast
    obtain rfl := Option.some.inj isLast
    obtain rfl := Option.some.inj isFirst
    exact ⟨last, [], rfl, closing⟩

theorem IsCut.join {closed : List (List α)} {group : List α} {last : α}
    (before : IsCut closes (closed, group)) (joins : closesGroup closes group last = false) :
    IsCut closes (closed, group ++ [last]) where
  nonempty := before.nonempty
  within next member first rest same := by
    rcases List.mem_append.mp member with early | late
    · exact before.within next (List.mem_append_left _ early) first rest same
    · rw [List.mem_singleton.mp late] at same
      cases group with
      | nil =>
          obtain ⟨_, rfl⟩ := List.cons.inj same
          exact fun _ absurdity => absurd absurdity List.not_mem_nil
      | cons head tail =>
          obtain ⟨rfl, rfl⟩ := List.cons.inj same
          intro element inside
          rcases List.mem_append.mp inside with old | new
          · exact before.within _ (List.mem_append_right _ List.mem_cons_self) head tail rfl
              element old
          · rw [List.mem_singleton.mp new]
            exact joins
  closing := by
    obtain ⟨chain, _, follows⟩ := List.isChain_append.mp before.closing
    apply List.isChain_append.mpr ⟨chain, List.IsChain.singleton _, ?_⟩
    intro left isLast right isFirst
    obtain rfl := Option.some.inj isFirst
    obtain ⟨element, rest, same, closing⟩ := follows left isLast group rfl
    exact ⟨element, rest ++ [last], by rw [same]; rfl, closing⟩

/-- The cut of a stream is one. -/
theorem isCut_cut (elements : List α) : IsCut closes (cut closes [] elements) := by
  induction elements using List.reverseRecOn with
  | nil =>
      refine ⟨?_, ?_, List.IsChain.singleton _⟩
      · exact fun _ member => absurd member List.not_mem_nil
      · intro group member first rest same
        rw [List.mem_singleton.mp member] at same
        cases same
  | append_singleton elements last induction =>
      rw [cut_concat]
      split
      · rename_i closing
        exact induction.close closing
      · rename_i joins
        exact induction.join (Bool.eq_false_iff.mpr joins)

end GroupCut
