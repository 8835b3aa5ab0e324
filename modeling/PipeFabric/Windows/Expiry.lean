import PipeFabric.Qop.TumblingWindow

/-!
# The change stream of a tumbling row window

Without a window function a tumbling row window retracts the tuple that closes
it before it has forwarded that tuple.  Its output is a well formed change
stream exactly as long as no window is closed.
-/

namespace PipeFabric.TumblingWindow

open ChangeStream Published Window

variable {α : Type}

/-- Until the window is full every tuple is buffered and forwarded. -/
theorem processNew_filling {window : Window α} {size : UInt32}
    (row : window.mWinSize = .RowWindow size)
    (function : window.mWindowOpFunc = none) {seen : List α}
    (filling : seen.length < size.toNat) :
    processNew window seen =
      ({ mTupleBuf := seen, mCurrSize := UInt32.ofNat seen.length },
        publishAll (insertAll seen)) := by
  induction seen using List.reverseRecOn with
  | nil => rfl
  | append_singleton seen data induction =>
      rw [List.length_append, List.length_singleton] at filling
      have bounded := size.toNat_lt
      have before := induction (by omega)
      have notFull : ¬ UInt32.ofNat seen.length + 1 = size := by
        intro full
        have counter := congrArg UInt32.toNat full
        rw [UInt32.toNat_add, UInt32.toNat_ofNat', UInt32.toNat_one] at counter
        omega
      rw [processNew_concat, before]
      simp only [processDataElement, Bool.false_eq_true, if_false, function,
        mEvictFun, row, evictByCount, State.push_back, notFull,
        List.length_append, List.length_singleton, UInt32.ofNat_add,
        insertAll_append, insertAll_singleton, List.nil_append]
      simp [publishAll]

/-- The tuple that closes the first window is retracted before it is forwarded. -/
theorem processNew_closing {window : Window α} {size : UInt32}
    (row : window.mWinSize = .RowWindow size)
    (function : window.mWindowOpFunc = none) {seen : List α} {data : α}
    (closing : seen.length + 1 = size.toNat) :
    (processNew window (seen ++ [data])).2 =
      publishAll (insertAll seen) ++
        (expire (seen ++ [data]) ++ publishAll [⟨data, false⟩]) := by
  have full : UInt32.ofNat seen.length + 1 = size := by
    have bounded := size.toNat_lt
    rw [← UInt32.toNat_inj, UInt32.toNat_add, UInt32.toNat_ofNat',
      UInt32.toNat_one]
    omega
  rw [processNew_concat, processNew_filling row function (by omega)]
  simp only [processDataElement, Bool.false_eq_true, if_false, function,
    mEvictFun, row, evictByCount, State.push_back, full, if_true]

variable [DecidableEq α]

/-- Nothing is live downstream when a window expires. -/
def ExpiresEmpty (published : List (Published α)) : Prop :=
  ∀ before after,
    published = before ++ .punctuation .WindowExpired :: after →
      (insertions (changes before) : Multiset α) -
        (retractions (changes before) : Multiset α) = 0

omit [DecidableEq α] in
theorem not_mem_publishAll (ptype : PType) (elements : List (Change α)) :
    .punctuation ptype ∉ publishAll elements := by
  intro member
  obtain ⟨change, _, equal⟩ := List.mem_map.mp member
  cases equal

theorem not_wellFormed_of_closing {window : Window α} {size : UInt32}
    (row : window.mWinSize = .RowWindow size)
    (function : window.mWindowOpFunc = none) {seen : List α} {data : α}
    (closing : seen.length + 1 = size.toNat) :
    ¬ WellFormed (changes (processNew window (seen ++ [data])).2) := by
  intro wellFormed
  rw [processNew_closing row function closing] at wellFormed
  simp only [changes_append, changes_publishAll, changes_expire] at wellFormed
  rw [← List.append_assoc, wellFormed_concat_new,
    wellFormed_append_retractAll] at wellFormed
  have covered := wellFormed.2 data (by simp)
  simp only [retractions_insertAll, insertions_insertAll, List.nil_append,
    List.count_append, List.count_singleton_self] at covered
  omega

/-- A tumbling row window publishes a well formed change stream that is empty at
every expiry exactly when the stream ends before the first window is full. -/
theorem tumblingWindow_wellFormed (window : Window α) (size : UInt32)
    (row : window.mWinSize = .RowWindow size)
    (function : window.mWindowOpFunc = none) (positive : 1 ≤ size.toNat)
    (inputs : List α) :
    (WellFormed (changes (processNew window inputs).2) ∧
      ExpiresEmpty (processNew window inputs).2) ↔
      inputs.length < size.toNat := by
  constructor
  · intro valid
    obtain ⟨wellFormed, _⟩ := valid
    by_contra full
    obtain ⟨seen, data, first⟩ :
        ∃ seen data, inputs.take size.toNat = seen ++ [data] := by
      have some : inputs.take size.toNat ≠ [] := by
        intro empty
        have lengths := congrArg List.length empty
        rw [List.length_take, List.length_nil] at lengths
        omega
      obtain ⟨seen, data, equal⟩ :=
        (List.eq_nil_or_concat _).resolve_left some
      exact ⟨seen, data, by rw [equal, List.concat_eq_append]⟩
    have closing : seen.length + 1 = size.toNat := by
      have lengths := congrArg List.length first
      rw [List.length_take, List.length_append, List.length_singleton] at lengths
      omega
    apply not_wellFormed_of_closing row function closing
    rw [← first]
    exact wellFormed.truncate
      (changes_mono (processNew_mono window (List.take_prefix _ _)))
  · intro filling
    rw [processNew_filling row function filling]
    constructor
    · rw [changes_publishAll]
      exact wellFormed_insertAll inputs
    · intro before after split
      dsimp only at split
      have member : .punctuation .WindowExpired ∈ publishAll (insertAll inputs) := by
        rw [split]
        simp
      exact absurd member (not_mem_publishAll _ _)

theorem tumblingWindow_wellFormed_filling :
    (WellFormed (changes (processNew (.row 3 none) [1, 2]).2) ∧
      ExpiresEmpty (processNew (.row 3 none) [1, 2]).2) ↔ 2 < 3 :=
  tumblingWindow_wellFormed (.row 3 none) 3 rfl rfl (by decide) [1, 2]

/-- A window of two tuples retracts the second one before it is forwarded. -/
theorem not_tumblingWindow_wellFormed :
    (processNew (.row 2 none) [1, 2]).2 =
        [.element ⟨1, false⟩, .element ⟨1, true⟩, .element ⟨2, true⟩,
          .punctuation .WindowExpired, .element ⟨2, false⟩] ∧
      ¬ WellFormed (changes (processNew (.row 2 none) [1, 2]).2) := by
  decide

end PipeFabric.TumblingWindow
