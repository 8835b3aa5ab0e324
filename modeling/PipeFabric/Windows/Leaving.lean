import PipeFabric.Windows.Retractions

/-!
# The tuples that leave at an arrival

A window without a function retracts the tuples that leave, in the order of their
arrival, before it forwards the arriving one.
-/

namespace PipeFabric

open ChangeStream Published

variable {α : Type}

namespace Window

/-- A window has room for a tuple. -/
def Positive (window : Window α) : Prop :=
  match window.mWinSize with
  | .RowWindow size => 1 ≤ size.toNat
  | .RangeWindow size => 0 < size

instance (window : Window α) : Decidable window.Positive :=
  match window with
  | ⟨_, .RowWindow size, _⟩ => inferInstanceAs (Decidable (1 ≤ size.toNat))
  | ⟨_, .RangeWindow size, _⟩ => inferInstanceAs (Decidable (0 < size))

/-- The tuples that leave the window at an arrival. -/
def leaving (keep : List α → List α) (seen : List α) (data : α) : List α :=
  (contents keep seen ++ [data]).take
    ((contents keep seen).length + 1 - (contents keep (seen ++ [data])).length)

theorem leaving_eq {keep : List α → List α} {seen left : List α} {data : α}
    (split : left ++ contents keep (seen ++ [data]) =
      contents keep seen ++ [data]) : leaving keep seen data = left := by
  have lengths := congrArg List.length split
  rw [List.length_append, List.length_append, List.length_singleton] at lengths
  unfold leaving
  rw [← split]
  have count : (contents keep seen).length + 1 -
      (contents keep (seen ++ [data])).length = left.length := by
    omega
  rw [count, List.take_left]

/-- The tuples that stay are the last ones, as long as `keep` takes tuples from the
front. -/
theorem contents_suffix {keep : List α → List α}
    (front : ∀ buffer, keep buffer <:+ buffer) (seen : List α) :
    contents keep seen <:+ seen := by
  induction seen using List.reverseRecOn with
  | nil => exact List.suffix_rfl
  | append_singleton seen data induction =>
      rw [contents_concat]
      refine (front _).trans ?_
      obtain ⟨left, split⟩ := induction
      exact ⟨left, by rw [← List.append_assoc, split]⟩

/-- A window that holds everything has held everything before. -/
theorem contents_full {keep : List α → List α}
    (front : ∀ buffer, keep buffer <:+ buffer) {seen tuples : List α}
    (full : contents keep tuples = tuples) (start : seen <+: tuples) :
    contents keep seen = seen := by
  induction tuples using List.reverseRecOn with
  | nil => rw [List.prefix_nil.mp start]; rfl
  | append_singleton earlier data induction =>
      rcases List.prefix_concat_iff.mp start with whole | inside
      · rw [whole]
        exact full
      · apply induction _ inside
        rw [contents_concat] at full
        have longer := (front (contents keep earlier ++ [data])).length_le
        rw [full, List.length_append, List.length_append] at longer
        exact (contents_suffix front earlier).eq_of_length_le
          (Nat.le_of_add_le_add_right longer)

/-- A window that does not hold everything has lost a tuple at some arrival, and
none before. -/
theorem first_leaving {keep : List α → List α} {tuples : List α}
    (lost : contents keep tuples ≠ tuples) :
    ∃ seen data, seen ++ [data] <+: tuples ∧ contents keep seen = seen ∧
      contents keep (seen ++ [data]) ≠ seen ++ [data] := by
  induction tuples using List.reverseRecOn with
  | nil => exact absurd rfl lost
  | append_singleton earlier data induction =>
      by_cases full : contents keep earlier = earlier
      · exact ⟨earlier, data, List.prefix_rfl, full, lost⟩
      · obtain ⟨seen, first, start, held, gone⟩ := induction full
        exact ⟨seen, first, start.trans (List.prefix_append _ _), held, gone⟩

/-- A sliding window with room keeps the arriving tuple. -/
theorem slidingKeep_concat {window : Window α} (positive : window.Positive)
    (buffer : List α) (data : α) :
    ∃ stays, window.slidingKeep (buffer ++ [data]) = stays ++ [data] := by
  unfold Positive at positive
  unfold slidingKeep
  cases sizeIs : window.mWinSize with
  | RowWindow size =>
      rw [sizeIs] at positive
      dsimp only at positive ⊢
      by_cases fits : size.toNat + 1 < 2 ^ 32
      · rw [if_pos fits, List.length_append, List.length_singleton]
        refine ⟨buffer.drop (buffer.length + 1 - size.toNat), ?_⟩
        exact List.drop_append_of_le_length (by omega)
      · rw [if_neg fits]
        exact ⟨buffer, rfl⟩
  | RangeWindow size =>
      rw [sizeIs] at positive
      dsimp only at positive ⊢
      rw [List.getLast?_concat]
      dsimp only
      by_cases reaches : window.mTimestampExtractor data ≥ size
      · have stays : ¬ window.mTimestampExtractor data ≤
            window.mTimestampExtractor data - size := by
          omega
        rw [if_pos reaches, List.dropWhile_append]
        by_cases emptied : (buffer.dropWhile fun tup =>
            decide (window.mTimestampExtractor tup ≤
              window.mTimestampExtractor data - size)).isEmpty
        · rw [if_pos emptied, List.dropWhile_cons, if_neg (by simpa using stays)]
          exact ⟨[], rfl⟩
        · rw [if_neg emptied]
          exact ⟨_, rfl⟩
      · rw [if_neg reaches]
        exact ⟨buffer, rfl⟩

/-- A tumbling window keeps all tuples, or the last one or none. -/
theorem tumblingKeep_cases (window : Window α) (buffer : List α) (data : α) :
    window.tumblingKeep (buffer ++ [data]) = buffer ++ [data] ∨
      (window.tumblingKeep (buffer ++ [data]) = [] ∧
        ∃ size, window.mWinSize = .RowWindow size ∧
          (buffer.length + 1) % 2 ^ 32 = size.toNat) ∨
      (window.tumblingKeep (buffer ++ [data]) = [data] ∧
        ∃ size, window.mWinSize = .RangeWindow size) := by
  unfold tumblingKeep
  cases sizeIs : window.mWinSize with
  | RowWindow size =>
      dsimp only
      rw [List.length_append, List.length_singleton]
      by_cases full : (buffer.length + 1) % 2 ^ 32 = size.toNat
      · rw [if_pos full]
        exact Or.inr (Or.inl ⟨rfl, size, rfl, full⟩)
      · rw [if_neg full]
        exact Or.inl rfl
  | RangeWindow size =>
      dsimp only
      rw [List.getLast?_concat]
      split
      case h_1 first last _ newest =>
        cases newest
        split
        · exact Or.inr (Or.inr ⟨rfl, size, rfl⟩)
        · exact Or.inl rfl
      case h_2 => exact Or.inl rfl

theorem tumblingKeep_suffix (window : Window α) (buffer : List α) :
    window.tumblingKeep buffer <:+ buffer := by
  rcases List.eq_nil_or_concat buffer with empty | ⟨earlier, data, concat⟩
  · subst empty
    unfold tumblingKeep
    split
    · split <;> exact List.suffix_rfl
    · exact List.suffix_rfl
  · subst concat
    rw [List.concat_eq_append]
    rcases window.tumblingKeep_cases earlier data with
      all | ⟨none, _⟩ | ⟨last, _⟩
    · rw [all]
    · rw [none]
      exact List.nil_suffix
    · rw [last]
      exact List.suffix_append _ _

end Window

open Window

/-! ### The streams of windows without a function -/

theorem SlidingWindow.changes_concat {window : Window α}
    (plain : window.mWindowOpFunc = none) (seen : List α) (data : α) :
    changes (SlidingWindow.processNew window (seen ++ [data])).2 =
      changes (SlidingWindow.processNew window seen).2 ++
        retractAll (leaving window.slidingKeep seen data) ++
        [⟨data, false⟩] := by
  have evicted := mEvictFun_append window
    ((processNew window seen).1.push_back data)
  have after := processNew_buffer window (seen ++ [data])
  rw [processNew_concat, processDataElement_new] at after ⊢
  dsimp only at after
  have left : leaving window.slidingKeep seen data =
      (mEvictFun window ((processNew window seen).1.push_back data)).2 := by
    apply leaving_eq
    rw [← after, evicted, State.push_back, processNew_buffer]
  rw [left]
  simp only [changes_append, changes_publishAll, forwarded, plain,
    List.append_assoc]

namespace TumblingWindow

theorem processNew_plain {window : Window α}
    (plain : window.mWindowOpFunc = none) (seen : List α) (data : α) :
    processNew window (seen ++ [data]) =
      ((mEvictFun window ((processNew window seen).1.push_back data)).1,
        (processNew window seen).2 ++
          ((mEvictFun window ((processNew window seen).1.push_back data)).2 ++
            publishAll [⟨data, false⟩])) := by
  rw [processNew_concat]
  unfold processDataElement
  rw [plain]
  rfl

theorem processNew_plain_buffer {window : Window α}
    (plain : window.mWindowOpFunc = none) (seen : List α) :
    (processNew window seen).1.mTupleBuf =
      contents window.tumblingKeep seen := by
  induction seen using List.reverseRecOn with
  | nil => rfl
  | append_singleton seen data induction =>
      have counted := (processNew_counted window seen).push_back data
      rw [processNew_plain plain, mEvictFun_buffer window counted,
        State.push_back, induction, contents_concat]

theorem changes_concat {window : Window α}
    (plain : window.mWindowOpFunc = none) (seen : List α) (data : α) :
    changes (processNew window (seen ++ [data])).2 =
      changes (processNew window seen).2 ++
        retractAll (leaving window.tumblingKeep seen data) ++
        [⟨data, false⟩] := by
  have after := processNew_plain_buffer plain (seen ++ [data])
  rw [processNew_plain plain] at after ⊢
  dsimp only at after
  have pushed : ((processNew window seen).1.push_back data).mTupleBuf =
      contents window.tumblingKeep seen ++ [data] := by
    rw [State.push_back, processNew_plain_buffer plain]
  rcases mEvictFun_cases window ((processNew window seen).1.push_back data) with
    kept | ⟨expired, published, split⟩
  · have left : leaving window.tumblingKeep seen data = [] := by
      apply leaving_eq
      rw [← after, kept, pushed, List.nil_append]
    rw [left, kept]
    simp
  · have left : leaving window.tumblingKeep seen data = expired := by
      apply leaving_eq
      rw [← after, split, pushed]
    rw [left, published]
    simp [changes_expire]

end TumblingWindow

end PipeFabric
