import Mathlib.Data.Multiset.Sort

/-!
# Ranks in a multiset

The element at a rank, counted from zero in ascending order, without sorting: the
smaller elements come before it, and its own copies follow each other.  What changes by
an insertion is a matter of counting, and the neighbours of an element are reached over
its first and its last copy.
-/

namespace OrderStatistics

variable {α : Type} [LinearOrder α]

/-- The number of smaller elements. -/
def below (values : Multiset α) (value : α) : Nat :=
  values.countP fun other => other < value

/-- The copy with this number of the value is the element at the rank. -/
def AtRank (values : Multiset α) (rank : Nat) (value : α) (copy : Nat) : Prop :=
  below values value + copy = rank ∧ copy < values.count value

theorem below_cons (data value : α) (values : Multiset α) :
    below (data ::ₘ values) value = below values value + if data < value then 1 else 0 :=
  Multiset.countP_cons _ data values

variable {values : Multiset α} {rank copy : Nat} {value : α}

theorem AtRank.mem (located : AtRank values rank value copy) : value ∈ values := by
  apply Multiset.count_pos.mp
  exact Nat.lt_of_le_of_lt (Nat.zero_le copy) located.2

/-- The elements up to the value come before every larger one. -/
theorem below_add_count_le {larger : α} (less : value < larger) (values : Multiset α) :
    below values value + values.count value ≤ below values larger := by
  induction values using Multiset.induction_on with
  | empty => exact Nat.le_refl 0
  | cons data values induction =>
      rw [below_cons, below_cons, Multiset.count_cons]
      by_cases smaller : data < value
      · have before : data < larger := smaller.trans less
        rw [if_pos smaller, if_pos before, if_neg (ne_of_gt smaller)]
        omega
      · rw [if_neg smaller]
        by_cases same : value = data
        · subst same
          rw [if_pos rfl, if_pos less]
          omega
        · rw [if_neg same]
          omega

theorem below_add_count_le_card (values : Multiset α) (value : α) :
    below values value + values.count value ≤ values.card := by
  induction values using Multiset.induction_on with
  | empty => exact Nat.le_refl 0
  | cons data values induction =>
      rw [below_cons, Multiset.count_cons, Multiset.card_cons]
      by_cases smaller : data < value
      · rw [if_pos smaller, if_neg (ne_of_gt smaller)]
        omega
      · rw [if_neg smaller]
        split
        · omega
        · omega

/-- Elements at ascending ranks ascend. -/
theorem AtRank.mono {later copyLater : Nat} {larger : α}
    (first : AtRank values rank value copy) (second : AtRank values later larger copyLater)
    (order : rank ≤ later) : value ≤ larger := by
  by_contra greater
  have before := below_add_count_le (not_le.mp greater) values
  have position := first.1
  have positionLater := second.1
  have inside := second.2
  omega

/-- One element only is found at a rank. -/
theorem AtRank.unique {other : α} {copyOther : Nat}
    (first : AtRank values rank value copy) (second : AtRank values rank other copyOther) :
    value = other :=
  le_antisymm (first.mono second (le_refl rank)) (second.mono first (le_refl rank))

/-- Everything between a value and its predecessor are the copies of the predecessor. -/
theorem below_of_predecessor {previous : α} (less : previous < value)
    (adjacent : ∀ other ∈ values, other < value → other ≤ previous) :
    below values value = below values previous + values.count previous := by
  induction values using Multiset.induction_on with
  | empty => rfl
  | cons data values induction =>
      have rest := induction fun other member =>
        adjacent other (Multiset.mem_cons_of_mem member)
      have here := adjacent data (Multiset.mem_cons_self data values)
      rw [below_cons, below_cons, Multiset.count_cons, rest]
      by_cases smaller : data < value
      · rw [if_pos smaller]
        rcases lt_or_eq_of_le (here smaller) with before | same
        · rw [if_pos before, if_neg (ne_of_gt before)]
          omega
        · subst same
          rw [if_neg (lt_irrefl data), if_pos rfl]
          omega
      · have after : ¬ data < previous := fun before => smaller (before.trans less)
        have other : ¬ previous = data := fun same => smaller (same ▸ less)
        rw [if_neg smaller, if_neg after, if_neg other]
        omega

/-- Everything between a value and its successor are the copies of the value. -/
theorem below_of_successor {next : α} (greater : value < next)
    (adjacent : ∀ other ∈ values, value < other → next ≤ other) :
    below values next = below values value + values.count value := by
  apply below_of_predecessor greater
  intro other member less
  by_contra after
  exact absurd (adjacent other member (not_le.mp after)) (not_le.mpr less)

theorem exists_lt_of_below (some : 0 < below values value) :
    ∃ other ∈ values, other < value := Multiset.countP_pos.mp some

/-- Something follows a value when it is not the last in the multiset. -/
theorem exists_gt_of_lt_card (some : below values value + values.count value < values.card) :
    ∃ other ∈ values, value < other := by
  by_contra nothing
  have last : values.countP (fun other => other < value) + values.count value =
      values.card := by
    clear some
    induction values using Multiset.induction_on with
    | empty => rfl
    | cons data values induction =>
        have rest := induction fun later => by
          obtain ⟨other, member, greater⟩ := later
          exact nothing ⟨other, Multiset.mem_cons_of_mem member, greater⟩
        have here : ¬ value < data := fun greater =>
          nothing ⟨data, Multiset.mem_cons_self data values, greater⟩
        rw [Multiset.countP_cons, Multiset.count_cons, Multiset.card_cons, ← rest]
        rcases lt_or_eq_of_le (not_lt.mp here) with before | same
        · rw [if_pos before, if_neg (ne_of_gt before)]
          omega
        · subst same
          rw [if_neg (lt_irrefl data), if_pos rfl]
          omega
  exact absurd some (by unfold below; omega)

/-- The element at a place of an ascending list. -/
theorem atRank_of_getElem? {list : List α} (ascending : list.Pairwise (· ≤ ·))
    (here : list[rank]? = some value) : ∃ copy, AtRank (list : Multiset α) rank value copy := by
  induction list generalizing rank with
  | nil => simp at here
  | cons head tail induction =>
      obtain ⟨least, tailAscending⟩ := List.pairwise_cons.mp ascending
      have none (bound : α) (small : bound ≤ head) : below (tail : Multiset α) bound = 0 := by
        apply Multiset.countP_eq_zero.mpr
        intro other member before
        exact absurd (least other member) (not_le.mpr (before.trans_le small))
      rw [← Multiset.cons_coe]
      cases rank with
      | zero =>
          obtain rfl : head = value := by simpa using here
          refine ⟨0, ?_, ?_⟩
          · rw [below_cons, none head (le_refl head), if_neg (lt_irrefl head)]
          · rw [Multiset.count_cons_self]
            exact Nat.succ_pos _
      | succ rank =>
          obtain ⟨copy, position, inside⟩ := induction tailAscending (by simpa using here)
          have member : value ∈ tail := List.mem_of_getElem? (by simpa using here)
          unfold AtRank
          rw [below_cons, Multiset.count_cons]
          rcases lt_or_eq_of_le (least value member) with before | same
          · refine ⟨copy, ?_, ?_⟩
            · rw [if_pos before]
              omega
            · rw [if_neg (ne_of_gt before)]
              omega
          · subst same
            rw [none head (le_refl head)] at position
            refine ⟨copy + 1, ?_, ?_⟩
            · rw [none head (le_refl head), if_neg (lt_irrefl head)]
              omega
            · rw [if_pos rfl]
              omega

/-- Ranks are the places in the sorted list. -/
theorem sort_getElem?_iff (values : Multiset α) :
    values.sort[rank]? = some value ↔ ∃ copy, AtRank values rank value copy := by
  have ascending : values.sort.Pairwise (· ≤ ·) := values.pairwise_sort (· ≤ ·)
  have same : ((values.sort : List α) : Multiset α) = values := values.sort_eq (· ≤ ·)
  constructor
  · intro here
    have located := atRank_of_getElem? ascending here
    rwa [same] at located
  · intro located
    obtain ⟨copy, atRank⟩ := located
    have position := atRank.1
    have inside := atRank.2
    have bounded := below_add_count_le_card values value
    have short : rank < values.sort.length := by
      rw [Multiset.length_sort]
      omega
    have present : values.sort[rank]? = some values.sort[rank] :=
      List.getElem?_eq_getElem short
    obtain ⟨copyThere, there⟩ := atRank_of_getElem? ascending present
    rw [same] at there
    rw [present, there.unique atRank]

end OrderStatistics
