import Mathlib.Data.List.Perm.Basic
import Mathlib.Data.List.TakeDrop
import PipeFabric.Library.Transducer

/-!
# Scanning a stream for a sequence of events

A pattern asks for a first event and then, step by step, for one event after the
other.  While a step waits for its event, another one can rule the attempt out.
`scan` reads a whole stream from left to right: an attempt starts at the first event
that qualifies, and the next one after the event that ended it.  `arrive` takes one
event at a time and remembers how far the attempt has come; the two agree.

The predicates see the values that are updated with every event of the attempt.
-/

namespace SequencePattern

variable {Event Related : Type}

/-- One event to wait for, and the events that rule the attempt out meanwhile. -/
structure Step (Event Related : Type) where
  negated : Event → Related → Bool
  positive : Event → Related → Bool
  update : Related → Event → Related

/-- The event decides about the attempt, one way or the other. -/
def Step.decides (step : Step Event Related) (related : Related)
    (event : Event) : Bool :=
  step.negated event related || step.positive event related

/-- A first event, the values it leaves, and what is to follow. -/
structure Pattern (Event Related : Type) where
  first : Event → Bool
  start : Event → Related
  steps : List (Step Event Related)

/-! ### The whole stream at once -/

/-- An attempt with the events matched so far: the match, if the attempt succeeds,
and the events after the one that ended it. -/
def attempt : List (Step Event Related) → Related → List Event → List Event →
    Option (List Event) × List Event
  | [], _, matched, events => (some matched, events)
  | step :: later, related, matched, events =>
      match events.dropWhile fun event => !step.decides related event with
      | [] => (none, [])
      | event :: rest =>
          if step.negated event related then (none, rest)
          else attempt later (step.update related event) (matched ++ [event]) rest

theorem attempt_length_le (steps : List (Step Event Related)) (related : Related)
    (matched events : List Event) :
    (attempt steps related matched events).2.length ≤ events.length := by
  induction steps generalizing related matched events with
  | nil => exact Nat.le_refl _
  | cons step later induction =>
      simp only [attempt]
      have shorter := (events.dropWhile_suffix
        fun event => !step.decides related event).length_le
      split
      · exact Nat.zero_le _
      · rename_i event rest skipped
        rw [skipped, List.length_cons] at shorter
        split
        · exact Nat.le_of_succ_le shorter
        · exact Nat.le_trans (induction _ _ _) (Nat.le_of_succ_le shorter)

theorem scan_terminates {pattern : Pattern Event Related} {events : List Event}
    {event : Event} {rest : List Event}
    (found : (events.dropWhile fun event => !pattern.first event) = event :: rest) :
    (attempt pattern.steps (pattern.start event) [event] rest).2.length <
      events.length := by
  have shorter := (events.dropWhile_suffix
    fun event => !pattern.first event).length_le
  rw [found, List.length_cons] at shorter
  exact Nat.lt_of_le_of_lt (attempt_length_le _ _ _ _) shorter

/-- The matches in a stream, one attempt after the other. -/
def scan (pattern : Pattern Event Related) (events : List Event) :
    List (List Event) :=
  match _found : events.dropWhile fun event => !pattern.first event with
  | [] => []
  | event :: rest =>
      (attempt pattern.steps (pattern.start event) [event] rest).1.toList ++
        scan pattern (attempt pattern.steps (pattern.start event) [event] rest).2
termination_by events.length
decreasing_by exact scan_terminates _found

variable {pattern : Pattern Event Related}

theorem scan_of_nothing {events : List Event}
    (nothing : (events.dropWhile fun event => !pattern.first event) = []) :
    scan pattern events = [] := by
  rw [scan]
  split
  · rfl
  · rename_i found
    exact absurd (found.symm.trans nothing) (List.cons_ne_nil _ _)

theorem scan_of_found {events rest : List Event} {event : Event}
    (found : (events.dropWhile fun event => !pattern.first event) = event :: rest) :
    scan pattern events =
      (attempt pattern.steps (pattern.start event) [event] rest).1.toList ++
        scan pattern (attempt pattern.steps (pattern.start event) [event] rest).2 := by
  rw [scan]
  split
  · rename_i nothing
    exact absurd (found.symm.trans nothing) (List.cons_ne_nil _ _)
  · rename_i other same
    obtain ⟨rfl, rfl⟩ := List.cons.inj (same.symm.trans found)
    rfl

/-! ### One event at a time -/

/-- How far the current attempt has come. -/
inductive Progress (Event Related : Type) where
  | idle
  | waiting (related : Related) (matched : List Event) (expected : Step Event Related)
      (later : List (Step Event Related))

/-- An attempt that has just matched an event goes on, or is a match. -/
def advance (related : Related) (matched : List Event) :
    List (Step Event Related) → Progress Event Related × List (List Event)
  | [] => (.idle, [matched])
  | expected :: later => (.waiting related matched expected later, [])

/-- An event arrives. -/
def arrive (pattern : Pattern Event Related) :
    Progress Event Related → Event → Progress Event Related × List (List Event)
  | .idle, event =>
      if pattern.first event then advance (pattern.start event) [event] pattern.steps
      else (.idle, [])
  | .waiting related matched expected later, event =>
      if expected.negated event related then (.idle, [])
      else if expected.positive event related then
        advance (expected.update related event) (matched ++ [event]) later
      else (.waiting related matched expected later, [])

/-- Everything that is matched from a state of progress on. -/
def matchesFrom (pattern : Pattern Event Related) (progress : Progress Event Related)
    (events : List Event) : List (List Event) :=
  (Transducer.run (arrive pattern) progress events).2

@[simp] theorem matchesFrom_nil (progress : Progress Event Related) :
    matchesFrom pattern progress [] = [] := rfl

theorem matchesFrom_cons (progress : Progress Event Related) (event : Event)
    (events : List Event) :
    matchesFrom pattern progress (event :: events) =
      (arrive pattern progress event).2 ++
        matchesFrom pattern (arrive pattern progress event).1 events := rfl

/-- Before an attempt, events that cannot be its first one are skipped. -/
theorem matchesFrom_idle (events : List Event) :
    matchesFrom pattern .idle events =
      matchesFrom pattern .idle
        (events.dropWhile fun event => !pattern.first event) := by
  induction events with
  | nil => rfl
  | cons event events induction =>
      cases qualifies : pattern.first event with
      | true => simp [qualifies]
      | false =>
          rw [matchesFrom_cons]
          simp [arrive, qualifies, induction]

/-- While an attempt waits, events that do not decide about it are skipped. -/
theorem matchesFrom_waiting (related : Related) (matched : List Event)
    (expected : Step Event Related) (later : List (Step Event Related))
    (events : List Event) :
    matchesFrom pattern (.waiting related matched expected later) events =
      matchesFrom pattern (.waiting related matched expected later)
        (events.dropWhile fun event => !expected.decides related event) := by
  induction events with
  | nil => rfl
  | cons event events induction =>
      cases decided : expected.decides related event with
      | true => simp [decided]
      | false =>
          obtain ⟨allowed, unmet⟩ := Bool.or_eq_false_iff.mp decided
          rw [matchesFrom_cons]
          simp [arrive, allowed, unmet, decided, induction]

/-- An attempt is carried to its end, and the rest of the stream is read afresh. -/
theorem matchesFrom_advance (steps : List (Step Event Related)) (related : Related)
    (matched events : List Event) :
    (advance related matched steps).2 ++
        matchesFrom pattern (advance related matched steps).1 events =
      (attempt steps related matched events).1.toList ++
        matchesFrom pattern .idle (attempt steps related matched events).2 := by
  induction steps generalizing related matched events with
  | nil => rfl
  | cons expected later induction =>
      simp only [advance, attempt, List.nil_append]
      rw [matchesFrom_waiting]
      split
      · rename_i undecided
        rw [undecided]
        rfl
      · rename_i event rest skipped
        have decided : expected.decides related event = true := by
          have head := List.head?_dropWhile_not
            (fun event => !expected.decides related event) events
          simpa [skipped] using head
        rw [skipped, matchesFrom_cons]
        cases ruledOut : expected.negated event related with
        | true => simp [arrive, ruledOut]
        | false =>
            have met : expected.positive event related = true := by
              simpa [Step.decides, ruledOut] using decided
            simp only [arrive, ruledOut, met, Bool.false_eq_true, if_false, if_true]
            apply induction

/-- Taking one event at a time finds what the scan of the whole stream finds. -/
theorem matchesFrom_eq_scan (pattern : Pattern Event Related) (events : List Event) :
    matchesFrom pattern .idle events = scan pattern events := by
  induction events using scan.induct pattern with
  | case1 events nothing =>
      rw [matchesFrom_idle, nothing, scan_of_nothing nothing, matchesFrom_nil]
  | case2 events event rest found induction =>
      have qualifies : pattern.first event = true := by
        have head := List.head?_dropWhile_not
          (fun event => !pattern.first event) events
        simpa [found] using head
      rw [matchesFrom_idle, found, matchesFrom_cons, scan_of_found found]
      simp only [arrive, qualifies, if_true, matchesFrom_advance, induction]

/-! ### Attempts side by side -/

/-- The match of the attempt that starts at the head of the stream. -/
def matchAtHead (pattern : Pattern Event Related) : List Event → Option (List Event)
  | [] => none
  | event :: rest =>
      if pattern.first event then
        (attempt pattern.steps (pattern.start event) [event] rest).1
      else none

/-- The matches of all attempts, whatever has become of the others. -/
def everyMatch (pattern : Pattern Event Related) (events : List Event) :
    List (List Event) :=
  events.tails.filterMap (matchAtHead pattern)

/-- The match, if any, that an attempt comes to. -/
def Progress.outcome (events : List Event) :
    Progress Event Related → List (List Event)
  | .idle => []
  | .waiting related matched expected later =>
      (attempt (expected :: later) related matched events).1.toList

/-- The attempt is under way. -/
def Progress.isWaiting : Progress Event Related → Bool
  | .idle => false
  | .waiting _ _ _ _ => true

/-- The event rules the attempt out. -/
def Progress.isExcluded (event : Event) : Progress Event Related → Bool
  | .idle => false
  | .waiting related _ expected _ => expected.negated event related

/-- The event completes the attempt or rules it out. -/
def Progress.isEnded (event : Event) : Progress Event Related → Bool
  | .idle => false
  | .waiting related _ expected later =>
      expected.negated event related || (expected.positive event related && later.isEmpty)

/-- The event is offered to the attempts that wait, and one more may start with it. -/
def arriveAll (pattern : Pattern Event Related) (waiting : List (Progress Event Related))
    (event : Event) : List (Progress Event Related) × List (List Event) :=
  let arrived := (waiting ++ [Progress.idle]).map fun progress =>
    arrive pattern progress event
  ((arrived.map Prod.fst).filter Progress.isWaiting, arrived.flatMap Prod.snd)

theorem everyMatch_cons (event : Event) (events : List Event) :
    everyMatch pattern (event :: events) =
      (matchAtHead pattern (event :: events)).toList ++ everyMatch pattern events := by
  rw [everyMatch, List.tails, List.filterMap_cons, everyMatch]
  cases matchAtHead pattern (event :: events) <;> rfl

theorem outcome_advance (steps : List (Step Event Related)) (related : Related)
    (matched events : List Event) :
    (advance related matched steps).2 ++
        (advance related matched steps).1.outcome events =
      (attempt steps related matched events).1.toList := by
  cases steps with
  | nil => rfl
  | cons expected later => rfl

/-- An attempt with its next event is where the rest of the stream continues. -/
theorem outcome_arrive {progress : Progress Event Related}
    (waits : progress.isWaiting = true) (event : Event) (events : List Event) :
    (arrive pattern progress event).2 ++
        (arrive pattern progress event).1.outcome events =
      progress.outcome (event :: events) := by
  cases progress with
  | idle => cases waits
  | waiting related matched expected later =>
      cases ruledOut : expected.negated event related with
      | true =>
          simp [arrive, ruledOut, Progress.outcome, attempt, Step.decides]
      | false =>
          cases met : expected.positive event related with
          | true =>
              simp only [arrive, ruledOut, met, Bool.false_eq_true, if_false, if_true,
                Progress.outcome, attempt]
              rw [List.dropWhile_cons_of_neg (by simp [Step.decides, met])]
              simp only [ruledOut, Bool.false_eq_true, if_false]
              apply outcome_advance
          | false =>
              have skipped : ((event :: events).dropWhile
                  fun event => !expected.decides related event) =
                  events.dropWhile fun event => !expected.decides related event :=
                List.dropWhile_cons_of_pos (by simp [Step.decides, ruledOut, met])
              simp only [arrive, ruledOut, met, Bool.false_eq_true, if_false,
                Progress.outcome, attempt, List.nil_append, skipped]

theorem outcome_arrive_idle (event : Event) (events : List Event) :
    (arrive pattern .idle event).2 ++ (arrive pattern .idle event).1.outcome events =
      (matchAtHead pattern (event :: events)).toList := by
  cases qualifies : pattern.first event with
  | true =>
      simp only [arrive, matchAtHead, qualifies, if_true]
      apply outcome_advance
  | false => simp [arrive, matchAtHead, qualifies, Progress.outcome]

/-- Attempts that have ended come to nothing more. -/
theorem flatMap_outcome_filter (attempts : List (Progress Event Related))
    (events : List Event) :
    (attempts.filter Progress.isWaiting).flatMap (Progress.outcome events) =
      attempts.flatMap (Progress.outcome events) := by
  induction attempts with
  | nil => rfl
  | cons progress attempts induction =>
      cases progress with
      | idle =>
          rw [List.filter_cons_of_neg Bool.false_ne_true, induction]
          rfl
      | waiting related matched expected later =>
          rw [List.filter_cons_of_pos rfl, List.flatMap_cons, List.flatMap_cons, induction]

/-- The order in which the attempts wait does not matter. -/
theorem arriveAll_perm (pattern : Pattern Event Related)
    {waiting other : List (Progress Event Related)} (same : waiting.Perm other) (event : Event) :
    (arriveAll pattern waiting event).1.Perm (arriveAll pattern other event).1 ∧
      (arriveAll pattern waiting event).2.Perm (arriveAll pattern other event).2 := by
  have arrived := (same.append_right [Progress.idle]).map fun progress =>
    arrive pattern progress event
  exact ⟨(arrived.map Prod.fst).filter _, arrived.flatMap_right Prod.snd⟩

theorem arriveAll_waiting (pattern : Pattern Event Related)
    (waiting : List (Progress Event Related)) (event : Event) :
    ∀ progress ∈ (arriveAll pattern waiting event).1, progress.isWaiting = true := by
  intro progress member
  exact (List.mem_filter.mp member).2

/-- One event takes nothing from what the attempts come to. -/
theorem arriveAll_outcomes {waiting : List (Progress Event Related)}
    (underWay : ∀ progress ∈ waiting, progress.isWaiting = true) (event : Event)
    (events : List Event) :
    ((arriveAll pattern waiting event).2 ++
        (arriveAll pattern waiting event).1.flatMap (Progress.outcome events)).Perm
      (waiting.flatMap (Progress.outcome (event :: events)) ++
        (matchAtHead pattern (event :: events)).toList) := by
  simp only [arriveAll, flatMap_outcome_filter, List.flatMap_map]
  apply (List.flatMap_append_perm _ _ _).trans
  apply List.Perm.of_eq
  rw [List.flatMap_append, List.flatMap_singleton, outcome_arrive_idle]
  congr 1
  apply List.flatMap_congr
  intro progress member
  exact outcome_arrive (underWay progress member) event events

/-- Taking one event at a time, for all attempts at once, finds the matches of all
attempts. -/
theorem run_arriveAll {waiting : List (Progress Event Related)}
    (underWay : ∀ progress ∈ waiting, progress.isWaiting = true) (events : List Event) :
    (Transducer.run (arriveAll pattern) waiting events).2.Perm
      (waiting.flatMap (Progress.outcome events) ++ everyMatch pattern events) := by
  induction events generalizing waiting with
  | nil =>
      have nothing : waiting.flatMap (Progress.outcome []) = [] := by
        apply List.flatMap_eq_nil_iff.mpr
        intro progress member
        cases progress <;> rfl
      rw [nothing]
      exact .refl _
  | cons event events induction =>
      have later := induction (arriveAll_waiting pattern waiting event)
      rw [everyMatch_cons, ← List.append_assoc]
      apply List.Perm.trans (later.append_left _)
      rw [← List.append_assoc]
      exact (arriveAll_outcomes underWay event events).append_right _

/-! ### Patterns without negation -/

/-- No event rules an attempt out in front of this step. -/
def Step.IsPositive (step : Step Event Related) : Prop :=
  ∀ event related, step.negated event related = false

/-- No event can rule the attempt out any more. -/
def Progress.IsPositive : Progress Event Related → Prop
  | .idle => True
  | .waiting _ _ expected later => ∀ step ∈ expected :: later, step.IsPositive

theorem Progress.IsPositive.isExcluded {progress : Progress Event Related}
    (positive : progress.IsPositive) (event : Event) :
    progress.isExcluded event = false := by
  cases progress with
  | idle => rfl
  | waiting related matched expected later =>
      exact positive expected List.mem_cons_self event related

theorem advance_isPositive {steps : List (Step Event Related)}
    (positive : ∀ step ∈ steps, step.IsPositive) (related : Related)
    (matched : List Event) : (advance related matched steps).1.IsPositive := by
  cases steps with
  | nil => trivial
  | cons expected later => exact positive

theorem arrive_isPositive {progress : Progress Event Related}
    (steps : ∀ step ∈ pattern.steps, step.IsPositive)
    (positive : progress.IsPositive) (event : Event) :
    (arrive pattern progress event).1.IsPositive := by
  cases progress with
  | idle =>
      rw [arrive]
      split
      · exact advance_isPositive steps _ _
      · trivial
  | waiting related matched expected later =>
      rw [arrive]
      split
      · trivial
      · split
        · apply advance_isPositive
          exact fun step member => positive step (List.mem_cons_of_mem _ member)
        · exact positive

theorem arriveAll_isPositive {waiting : List (Progress Event Related)}
    (steps : ∀ step ∈ pattern.steps, step.IsPositive)
    (positive : ∀ progress ∈ waiting, progress.IsPositive) (event : Event) :
    ∀ progress ∈ (arriveAll pattern waiting event).1, progress.IsPositive := by
  intro progress member
  simp only [arriveAll, List.mem_filter, List.mem_map, List.mem_append,
    List.mem_singleton] at member
  obtain ⟨⟨_, ⟨before, among, rfl⟩, rfl⟩, _⟩ := member
  apply arrive_isPositive steps
  rcases among with old | rfl
  · exact positive before old
  · trivial

/-! ### What an attempt finds -/

/-- The events are those that the steps wait for, one after the other. -/
def Fits : List (Step Event Related) → Related → List Event → Prop
  | [], _, [] => True
  | step :: later, related, event :: events =>
      step.positive event related = true ∧ Fits later (step.update related event) events
  | [], _, _ :: _ => False
  | _ :: _, _, [] => False

/-- A successful attempt has matched events of the stream in their order. -/
theorem fits_of_attempt {steps : List (Step Event Related)} {related : Related}
    {matched events found : List Event}
    (succeeds : (attempt steps related matched events).1 = some found) :
    ∃ part, found = matched ++ part ∧ part.Sublist events ∧ Fits steps related part := by
  induction steps generalizing related matched events with
  | nil =>
      cases succeeds
      exact ⟨[], (List.append_nil _).symm, List.nil_sublist _, trivial⟩
  | cons step later induction =>
      have shorter := events.dropWhile_suffix fun event => !step.decides related event
      rw [attempt] at succeeds
      split at succeeds
      · cases succeeds
      · rename_i event rest skipped
        have decided : step.decides related event = true := by
          have head := List.head?_dropWhile_not
            (fun event => !step.decides related event) events
          simpa [skipped] using head
        rw [skipped] at shorter
        split at succeeds
        · cases succeeds
        · rename_i allowed
          obtain ⟨part, rfl, inside, fits⟩ := induction succeeds
          have met : step.positive event related = true := by
            simpa [Step.decides, allowed] using decided
          refine ⟨event :: part, by simp, ?_, met, fits⟩
          exact (inside.cons_cons event).trans shorter.sublist

/-- Where no event rules the attempt out and the values stay as they are, an attempt
fails only if the stream does not have the events in their order. -/
theorem not_fits_of_attempt {steps : List (Step Event Related)}
    (positive : ∀ step ∈ steps, step.IsPositive)
    (constant : ∀ step ∈ steps, ∀ related event, step.update related event = related)
    {related : Related} {matched events : List Event}
    (fails : (attempt steps related matched events).1 = none) {part : List Event}
    (inside : part.Sublist events) : ¬ Fits steps related part := by
  induction steps generalizing matched events part with
  | nil => cases fails
  | cons step later induction =>
      cases part with
      | nil => exact fun fits => fits
      | cons event part =>
          intro fits
          obtain ⟨met, following⟩ := fits
          rw [constant step List.mem_cons_self] at following
          have decides : step.decides related event = true := by
            rw [Step.decides, met, Bool.or_true]
          -- The events that the attempt skips are not the first of the part.
          have reaches : ∃ first rest,
              (events.dropWhile fun event => !step.decides related event) =
                first :: rest ∧ part.Sublist rest := by
            clear fails
            induction events with
            | nil => cases inside
            | cons first events skip =>
                cases here : step.decides related first with
                | true =>
                    refine ⟨first, events, by simp [here], ?_⟩
                    cases inside with
                    | cons _ later => exact (List.sublist_cons_self event part).trans later
                    | cons_cons _ later => exact later
                | false =>
                    rw [List.dropWhile_cons_of_pos (by simp [here])]
                    cases inside with
                    | cons _ later => exact skip later
                    | cons_cons _ _ => cases here.symm.trans decides
          obtain ⟨first, rest, skipped, later⟩ := reaches
          rw [attempt, skipped] at fails
          dsimp only at fails
          rw [positive step List.mem_cons_self, if_neg Bool.false_ne_true,
            constant step List.mem_cons_self] at fails
          exact induction (fun step member => positive step (List.mem_cons_of_mem _ member))
            (fun step member => constant step (List.mem_cons_of_mem _ member))
            fails later following

end SequencePattern
