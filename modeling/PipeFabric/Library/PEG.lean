import Mathlib.Logic.Basic

/-!
# Parsing expressions

Parsers with ordered choice, greedy repetition and expectation points.  A parser reads a
beginning of its input, fails and leaves the choice to others, or throws an exception
that no other parser can undo.  The rules tell what a parser makes of a text whatever
follows it, as far as that does not continue the text.
-/

namespace PEG

/-- What a parser does: it reads a value and leaves a rest, or it fails, or an
expectation is not met.  A loop that does not end counts as an exception. -/
inductive Outcome (Token Value : Type) where
  | success (value : Value) (rest : List Token)
  | failure
  | exception
  deriving DecidableEq

abbrev Parser (Token Value : Type) : Type := List Token → Outcome Token Value

variable {Token Value Other : Type}

/-! ### The combinators -/

def Outcome.andThen (outcome : Outcome Token Value)
    (continued : Value → Parser Token Other) : Outcome Token Other :=
  match outcome with
  | .success value rest => continued value rest
  | .failure => .failure
  | .exception => .exception

/-- A failure at an expectation point. -/
def Outcome.expected : Outcome Token Value → Outcome Token Value
  | .failure => .exception
  | outcome => outcome

def map (f : Value → Other) (parser : Parser Token Value) : Parser Token Other :=
  fun input => (parser input).andThen fun value => .success (f value)

/-- One parser after the other. -/
def seq (first : Parser Token Value) (second : Parser Token Other) :
    Parser Token (Value × Other) :=
  fun input => (first input).andThen fun value rest =>
    (second rest).andThen fun other => .success (value, other)

/-- One parser after the other, which must not fail. -/
def expect (first : Parser Token Value) (second : Parser Token Other) :
    Parser Token (Value × Other) :=
  seq first fun input => (second input).expected

/-- The second parser where the first fails. -/
def choice (first second : Parser Token Value) : Parser Token Value :=
  fun input =>
    match first input with
    | .failure => second input
    | outcome => outcome

def optional (parser : Parser Token Value) : Parser Token (Option Value) :=
  fun input =>
    match parser input with
    | .success value rest => .success (some value) rest
    | .failure => .success none input
    | .exception => .exception

def repeated (parser : Parser Token Value) : Nat → Parser Token (List Value)
  | 0, _ => .exception
  | fuel + 1, input =>
      match parser input with
      | .success value rest =>
          (repeated parser fuel rest).andThen fun values => .success (value :: values)
      | .failure => .success [] input
      | .exception => .exception

/-- As often as possible.  Every round reads a token, so there are no more rounds than
tokens. -/
def many (parser : Parser Token Value) : Parser Token (List Value) :=
  fun input => repeated parser (input.length + 1) input

/-- The parser starts behind the blanks. -/
def skip (blank : Token → Bool) (parser : Parser Token Value) : Parser Token Value :=
  fun input => parser (input.dropWhile blank)

def token (accepts : Token → Bool) : Parser Token Token
  | [] => .failure
  | first :: rest => if accepts first then .success first rest else .failure

def literal [DecidableEq Token] (text : List Token) : Parser Token (List Token) :=
  fun input =>
    if text <+: input then .success text (input.drop text.length) else .failure

/-! ### What parsers make of a text -/

/-- The parser reads the whole text and nothing behind it. -/
def Reads (parser : Parser Token Value) (text : List Token) (value : Value)
    (follows : List Token → Prop) : Prop :=
  ∀ rest, follows rest → parser (text ++ rest) = .success value rest

def Fails (parser : Parser Token Value) (text : List Token)
    (follows : List Token → Prop) : Prop :=
  ∀ rest, follows rest → parser (text ++ rest) = .failure

def Throws (parser : Parser Token Value) (text : List Token)
    (follows : List Token → Prop) : Prop :=
  ∀ rest, follows rest → parser (text ++ rest) = .exception

/-- Whatever follows. -/
def Anything (_ : List Token) : Prop := True

section

variable {first : Parser Token Value} {second : Parser Token Other} {text behind : List Token}
  {value : Value} {other : Other} {follows between : List Token → Prop}

theorem Reads.weaken {stronger : List Token → Prop} (reads : Reads first text value follows)
    (weaker : ∀ rest, stronger rest → follows rest) : Reads first text value stronger := by
  intro rest stops
  exact reads rest (weaker rest stops)

theorem Throws.weaken {stronger : List Token → Prop} (throws : Throws first text follows)
    (weaker : ∀ rest, stronger rest → follows rest) : Throws first text stronger := by
  intro rest stops
  exact throws rest (weaker rest stops)

/-- Text that is not reached makes no difference. -/
theorem Throws.longer (throws : Throws first text Anything) (behind : List Token) :
    Throws first (text ++ behind) follows := by
  intro rest _
  rw [List.append_assoc]
  exact throws _ trivial

theorem Reads.map {f : Value → Other} (reads : Reads first text value follows) :
    Reads (PEG.map f first) text (f value) follows := by
  intro rest stops
  simp only [PEG.map, reads rest stops, Outcome.andThen]

theorem Fails.map {f : Value → Other} (fails : Fails first text follows) :
    Fails (PEG.map f first) text follows := by
  intro rest stops
  simp only [PEG.map, fails rest stops, Outcome.andThen]

theorem Throws.map {f : Value → Other} (throws : Throws first text follows) :
    Throws (PEG.map f first) text follows := by
  intro rest stops
  simp only [PEG.map, throws rest stops, Outcome.andThen]

theorem Reads.seq (reads : Reads first text value between)
    (rest : Reads second behind other follows)
    (adjacent : ∀ later, follows later → between (behind ++ later)) :
    Reads (PEG.seq first second) (text ++ behind) (value, other) follows := by
  intro later stops
  simp only [PEG.seq, List.append_assoc, reads _ (adjacent later stops), rest later stops,
    Outcome.andThen]

theorem Fails.seq_left (fails : Fails first text follows) :
    Fails (PEG.seq first second) text follows := by
  intro rest stops
  simp only [PEG.seq, fails rest stops, Outcome.andThen]

theorem Throws.seq_left (throws : Throws first text follows) :
    Throws (PEG.seq first second) text follows := by
  intro rest stops
  simp only [PEG.seq, throws rest stops, Outcome.andThen]

theorem Throws.seq_right (reads : Reads first text value between)
    (throws : Throws second behind follows)
    (adjacent : ∀ later, follows later → between (behind ++ later)) :
    Throws (PEG.seq first second) (text ++ behind) follows := by
  intro later stops
  simp only [PEG.seq, List.append_assoc, reads _ (adjacent later stops), throws later stops,
    Outcome.andThen]

theorem Reads.expect (reads : Reads first text value between)
    (rest : Reads second behind other follows)
    (adjacent : ∀ later, follows later → between (behind ++ later)) :
    Reads (PEG.expect first second) (text ++ behind) (value, other) follows := by
  apply reads.seq _ adjacent
  intro later stops
  simp only [rest later stops, Outcome.expected]

theorem Fails.expect (fails : Fails first text follows) :
    Fails (PEG.expect first second) text follows :=
  fails.seq_left

/-- What is expected has to come. -/
theorem Throws.expect (reads : Reads first text value between)
    (fails : Fails second behind follows)
    (adjacent : ∀ later, follows later → between (behind ++ later)) :
    Throws (PEG.expect first second) (text ++ behind) follows := by
  apply Throws.seq_right reads _ adjacent
  intro later stops
  simp only [fails later stops, Outcome.expected]

theorem Throws.expect_right (reads : Reads first text value between)
    (throws : Throws second behind follows)
    (adjacent : ∀ later, follows later → between (behind ++ later)) :
    Throws (PEG.expect first second) (text ++ behind) follows := by
  apply Throws.seq_right reads _ adjacent
  intro later stops
  simp only [throws later stops, Outcome.expected]

end

section

variable {first second : Parser Token Value} {text : List Token} {value : Value}
  {follows : List Token → Prop}

theorem Reads.choice_left (reads : Reads first text value follows) :
    Reads (PEG.choice first second) text value follows := by
  intro rest stops
  simp only [PEG.choice, reads rest stops]

theorem Reads.choice_right (fails : Fails first text follows)
    (reads : Reads second text value follows) :
    Reads (PEG.choice first second) text value follows := by
  intro rest stops
  simp only [PEG.choice, fails rest stops, reads rest stops]

theorem Fails.choice (fails : Fails first text follows) (both : Fails second text follows) :
    Fails (PEG.choice first second) text follows := by
  intro rest stops
  simp only [PEG.choice, fails rest stops, both rest stops]

theorem Throws.choice_left (throws : Throws first text follows) :
    Throws (PEG.choice first second) text follows := by
  intro rest stops
  simp only [PEG.choice, throws rest stops]

theorem Throws.choice_right (fails : Fails first text follows)
    (throws : Throws second text follows) :
    Throws (PEG.choice first second) text follows := by
  intro rest stops
  simp only [PEG.choice, fails rest stops, throws rest stops]

theorem Reads.optional (reads : Reads first text value follows) :
    Reads (PEG.optional first) text (some value) follows := by
  intro rest stops
  simp only [PEG.optional, reads rest stops]

theorem Throws.optional (throws : Throws first text follows) :
    Throws (PEG.optional first) text follows := by
  intro rest stops
  simp only [PEG.optional, throws rest stops]

theorem dropWhile_blanks {blank : Token → Bool} {blanks : List Token}
    (empty : ∀ next ∈ blanks, blank next) {initial : Token} (starts : ¬ blank initial)
    (text rest : List Token) :
    (blanks ++ initial :: text ++ rest).dropWhile blank = initial :: text ++ rest := by
  rw [List.append_assoc, List.dropWhile_append_of_pos empty]
  simp [starts]

theorem Reads.skip {blank : Token → Bool} {blanks : List Token}
    (empty : ∀ next ∈ blanks, blank next) {initial : Token} (starts : ¬ blank initial)
    (reads : Reads first (initial :: text) value follows) :
    Reads (PEG.skip blank first) (blanks ++ initial :: text) value follows := by
  intro rest stops
  rw [PEG.skip, dropWhile_blanks empty starts]
  exact reads rest stops

theorem Fails.skip {blank : Token → Bool} {blanks : List Token}
    (empty : ∀ next ∈ blanks, blank next) {initial : Token} (starts : ¬ blank initial)
    (fails : Fails first (initial :: text) follows) :
    Fails (PEG.skip blank first) (blanks ++ initial :: text) follows := by
  intro rest stops
  rw [PEG.skip, dropWhile_blanks empty starts]
  exact fails rest stops

end

/-! ### Repetitions -/

section

variable {parser : Parser Token Value} {between follows : List Token → Prop}

/-- The rounds of a repetition, each with its text. -/
theorem repeated_eq {entries : List (List Token × Value)}
    (each : ∀ entry ∈ entries, Reads parser entry.1 entry.2 between)
    (adjacent : ∀ entry ∈ entries, ∀ rest, between (entry.1 ++ rest)) {rest : List Token}
    (stops : between rest) {fuel : Nat} :
    repeated parser (entries.length + fuel) (entries.flatMap Prod.fst ++ rest) =
      (repeated parser fuel rest).andThen fun values =>
        .success (entries.map Prod.snd ++ values) := by
  induction entries with
  | nil =>
      simp only [List.length_nil, Nat.zero_add, List.flatMap_nil, List.nil_append,
        List.map_nil]
      cases repeated parser fuel rest <;> rfl
  | cons entry entries induction =>
      have later := induction
        (fun next member => each next (List.mem_cons_of_mem entry member))
        (fun next member => adjacent next (List.mem_cons_of_mem entry member))
      have follows : between (entries.flatMap Prod.fst ++ rest) := by
        cases entries with
        | nil => exact stops
        | cons next entries =>
            rw [List.flatMap_cons, List.append_assoc]
            exact adjacent next (List.mem_cons_of_mem entry List.mem_cons_self) _
      have read := each entry List.mem_cons_self _ follows
      rw [List.length_cons, Nat.add_right_comm, repeated, List.flatMap_cons,
        List.append_assoc, read]
      dsimp only
      rw [later]
      cases repeated parser fuel rest <;> rfl

theorem length_flatMap_le {entries : List (List Token × Value)}
    (consuming : ∀ entry ∈ entries, entry.1 ≠ []) :
    entries.length ≤ (entries.flatMap Prod.fst).length := by
  induction entries with
  | nil => exact Nat.le_refl 0
  | cons entry entries induction =>
      have positive := List.length_pos_iff.mpr (consuming entry List.mem_cons_self)
      have later := induction fun next member =>
        consuming next (List.mem_cons_of_mem entry member)
      rw [List.flatMap_cons, List.length_append, List.length_cons]
      omega

theorem Reads.many {entries : List (List Token × Value)}
    (each : ∀ entry ∈ entries, Reads parser entry.1 entry.2 between)
    (consuming : ∀ entry ∈ entries, entry.1 ≠ [])
    (adjacent : ∀ entry ∈ entries, ∀ rest, between (entry.1 ++ rest))
    (stops : ∀ rest, follows rest → between rest) (ends : Fails parser [] follows) :
    Reads (PEG.many parser) (entries.flatMap Prod.fst) (entries.map Prod.snd) follows := by
  intro rest behind
  have rounds := length_flatMap_le consuming
  obtain ⟨fuel, enough⟩ := Nat.le.dest rounds
  have length : (entries.flatMap Prod.fst ++ rest).length + 1 =
      entries.length + (fuel + rest.length + 1) := by
    rw [List.length_append]
    omega
  have last := ends rest behind
  rw [List.nil_append] at last
  rw [PEG.many, length, repeated_eq each adjacent (stops rest behind)]
  simp only [repeated, last, Outcome.andThen, List.append_nil]

/-- A single round. -/
theorem Reads.many_one {text : List Token} {value : Value}
    (once : Reads parser text value between) (consuming : text ≠ [])
    (adjacent : ∀ rest, between (text ++ rest)) (stops : ∀ rest, follows rest → between rest)
    (ends : Fails parser [] follows) : Reads (PEG.many parser) text [value] follows := by
  have each : ∀ entry ∈ [(text, value)], Reads parser entry.1 entry.2 between := by
    intro entry member
    rw [List.mem_singleton.mp member]
    exact once
  have round := Reads.many each
    (fun entry member => by rw [List.mem_singleton.mp member]; exact consuming)
    (fun entry member => by rw [List.mem_singleton.mp member]; exact adjacent) stops ends
  rw [List.flatMap_singleton] at round
  exact round

/-- A round that throws ends the repetition. -/
theorem Throws.many {entries : List (List Token × Value)} {text : List Token}
    (each : ∀ entry ∈ entries, Reads parser entry.1 entry.2 between)
    (consuming : ∀ entry ∈ entries, entry.1 ≠ [])
    (adjacent : ∀ entry ∈ entries, ∀ rest, between (entry.1 ++ rest))
    (stops : ∀ rest, between (text ++ rest)) (throws : Throws parser text follows) :
    Throws (PEG.many parser) (entries.flatMap Prod.fst ++ text) follows := by
  intro rest behind
  have rounds := length_flatMap_le consuming
  obtain ⟨fuel, enough⟩ := Nat.le.dest rounds
  have length : (entries.flatMap Prod.fst ++ (text ++ rest)).length + 1 =
      entries.length + (fuel + (text ++ rest).length + 1) := by
    rw [List.length_append]
    omega
  rw [List.append_assoc, PEG.many, length, repeated_eq each adjacent (stops rest)]
  simp only [repeated, throws rest behind, Outcome.andThen]

/-- The first round throws. -/
theorem Throws.many_first {text : List Token} (throws : Throws parser text follows) :
    Throws (PEG.many parser) text follows := by
  intro rest behind
  simp only [PEG.many, repeated, throws rest behind]

end

/-! ### Tokens -/

/-- No token of this kind comes next. -/
def Stops (accepts : Token → Bool) (rest : List Token) : Prop :=
  ∀ next, rest.head? = some next → ¬ accepts next

theorem stops_nil (accepts : Token → Bool) : Stops accepts [] := by
  intro next first
  cases first

theorem stops_cons {accepts : Token → Bool} {initial : Token} (other : ¬ accepts initial)
    (rest : List Token) : Stops accepts (initial :: rest) := by
  intro next first
  obtain rfl := Option.some.inj first
  exact other

theorem reads_token {accepts : Token → Bool} {initial : Token} (accepted : accepts initial) :
    Reads (token accepts) [initial] initial Anything := by
  intro rest _
  exact if_pos accepted

theorem fails_token (accepts : Token → Bool) :
    Fails (token accepts) [] (Stops accepts) := by
  intro rest stops
  cases rest with
  | nil => rfl
  | cons next rest => exact if_neg (stops next rfl)

/-- All tokens of a kind. -/
theorem reads_tokens {accepts : Token → Bool} {text : List Token}
    (accepted : ∀ next ∈ text, accepts next) :
    Reads (many (token accepts)) text text (Stops accepts) := by
  have each : ∀ entry ∈ text.map fun next => ([next], next),
      Reads (token accepts) entry.1 entry.2 Anything := by
    intro entry member
    obtain ⟨next, inside, rfl⟩ := List.mem_map.mp member
    exact reads_token (accepted next inside)
  have consuming : ∀ entry ∈ text.map fun next => ([next], next), entry.1 ≠ [] := by
    intro entry member
    obtain ⟨next, _, rfl⟩ := List.mem_map.mp member
    exact List.cons_ne_nil next []
  have read := Reads.many each consuming (fun _ _ _ => trivial) (fun _ _ => trivial)
    (fails_token accepts)
  have texts : (text.map fun next => ([next], next)).flatMap Prod.fst = text := by
    simp [List.flatMap_map]
  have values : (text.map fun next => ([next], next)).map Prod.snd = text := by
    simp [Function.comp_def]
  rw [texts, values] at read
  exact read

section

variable [DecidableEq Token] {follows : List Token → Prop}

theorem reads_literal (text : List Token) :
    Reads (literal text) text text Anything := by
  intro rest _
  rw [literal, if_pos (List.prefix_append text rest), List.drop_left]

theorem fails_literal {text other : List Token}
    (differs : ∀ rest, follows rest → ¬ text <+: other ++ rest) :
    Fails (literal text) other follows := by
  intro rest stops
  rw [literal, if_neg (differs rest stops)]

end

end PEG
