import PipeFabric.Qcomp.SQLParser

/-!
# Printing and parsing queries

A printed query is read as that query when its keywords are in lower case and nothing
is compared with `<>`.  The operators `<<` print the keywords in upper case.  Of the
alternatives of a comparison `<` comes before `<>`, and behind it an operand is expected.
-/

namespace PipeFabric.SQL

open PEG

/-! ### The queries of the language -/

structure Identifier where
  letter : Char
  others : Text
  alphabetic : letter.isAlpha
  letters : ∀ c ∈ others, isLetter c

def Identifier.name (identifier : Identifier) : Text :=
  identifier.letter :: identifier.others

/-- The numbers of type `int`. -/
structure IntLiteral where
  value : Int
  lower : -2147483648 ≤ value
  upper : value < 2147483648

inductive Primary where
  | column (identifier : Identifier)
  | literal (number : IntLiteral)

inductive Comparator where
  | equal
  | unequal
  | less
  | lessEqual
  | greater
  | greaterEqual
  deriving DecidableEq

structure Comparison where
  left : Primary
  comparator : Comparator
  right : Primary

inductive Connective where
  | and
  | or

/-- Comparisons that are connected with `and` and `or`.  The language has no parentheses
and no precedence. -/
structure Condition where
  first : Comparison
  others : List (Connective × Comparison)

inductive Columns where
  | all
  | names (first : Identifier) (others : List Identifier)

structure Query where
  columns : Columns
  table : Identifier
  condition : Option Condition

/-! ### Their abstract syntax and their text -/

def Primary.ast : Primary → Operand
  | .column identifier => .rightAssoc (.column identifier.name)
  | .literal number => .rightAssoc (.literal number.value)

def Primary.text : Primary → Text
  | .column identifier => identifier.name
  | .literal number => printInt number.value

def Comparator.text : Comparator → Text
  | .equal => ['=']
  | .unequal => ['<', '>']
  | .less => ['<']
  | .lessEqual => ['<', '=']
  | .greater => ['>']
  | .greaterEqual => ['>', '=']

def Comparison.ast (comparison : Comparison) : Operand :=
  .expression comparison.left.ast [(comparison.comparator.text, comparison.right.ast)]

def Comparison.text (comparison : Comparison) : Text :=
  comparison.left.text ++ ' ' :: comparison.comparator.text ++ ' ' :: comparison.right.text

def Connective.text : Connective → Text
  | .and => ['a', 'n', 'd']
  | .or => ['o', 'r']

def Condition.ast (condition : Condition) : Expression where
  head_ := condition.first.ast
  tail_ := condition.others.map fun next => (next.1.text, next.2.ast)

/-- A connective and the comparison behind it. -/
def connected (next : Connective × Comparison) : Text :=
  ' ' :: next.1.text ++ ' ' :: next.2.text

def Condition.text (condition : Condition) : Text :=
  condition.first.text ++ condition.others.flatMap connected

def Columns.ast : Columns → List Text
  | .all => [[]]
  | .names first others => first.name :: others.map Identifier.name

def Query.ast (query : Query) : SQLQuery where
  columnList_ := query.columns.ast
  tableName_ := query.table.name
  whereClause_ := query.condition.map Condition.ast

/-- Two ways to write a query down: that of the operators `<<`, and that with the keywords
of the grammar and with `*` for all columns. -/
inductive Spelling where
  | printed
  | lowerCase
  deriving DecidableEq

def Columns.text : Columns → Text
  | .all => ['*']
  | .names first others => printColumns (first.name :: others.map Identifier.name)

def whereText : Option Condition → Text
  | none => []
  | some condition => [' ', 'w', 'h', 'e', 'r', 'e', ' '] ++ condition.ast.print

def Query.text (query : Query) : Spelling → Text
  | .printed => query.ast.print
  | .lowerCase =>
      ['s', 'e', 'l', 'e', 'c', 't', ' '] ++ query.columns.text ++
        [' ', 'f', 'r', 'o', 'm', ' '] ++ query.table.name ++ whereText query.condition

/-- The printed query is read as the query. -/
def RoundTrips (spelling : Spelling) (query : Query) : Prop :=
  parse (query.text spelling) = some query.ast

/-- The comparisons of the condition. -/
def Query.comparisons (query : Query) : List Comparison :=
  match query.condition with
  | none => []
  | some condition => condition.first :: condition.others.map Prod.snd

theorem Primary.ast_print (primary : Primary) : primary.ast.print = primary.text := by
  cases primary <;> rfl

theorem Comparison.ast_print (comparison : Comparison) :
    comparison.ast.print = comparison.text := by
  simp [Comparison.ast, Comparison.text, Operand.print, Operand.print.printTail,
    Primary.ast_print]

theorem printTail_map (others : List (Connective × Comparison)) :
    Operand.print.printTail (others.map fun next => (next.1.text, next.2.ast)) =
      others.flatMap connected := by
  induction others with
  | nil => rfl
  | cons next others induction =>
      rw [List.map_cons, Operand.print.printTail, induction, Comparison.ast_print,
        List.flatMap_cons, connected]

/-- The condition is printed as it is written. -/
theorem Condition.ast_print (condition : Condition) :
    condition.ast.print = condition.text := by
  rw [Expression.print, Condition.ast, Comparison.ast_print, printTail_map, Condition.text]

/-! ### Characters -/

theorem isAlpha_iff {c : Char} :
    c.isAlpha ↔ (65 ≤ c.toNat ∧ c.toNat ≤ 90) ∨ (97 ≤ c.toNat ∧ c.toNat ≤ 122) := by
  have unfolded : c.isAlpha = (decide (65 ≤ c.toNat ∧ c.toNat ≤ 90) ||
      (decide (97 ≤ c.toNat) && decide (c.toNat ≤ 122))) := rfl
  rw [unfolded]
  simp

/-- Digits, letters and the underscore stand behind all white space. -/
theorem le_toNat_of_isLetter {c : Char} (letter : isLetter c) : 48 ≤ c.toNat := by
  have cases : (c.isAlpha ∨ c.isDigit) ∨ c = '_' := by
    simpa [isLetter, Char.isAlphanum] using letter
  rcases cases with (alphabetic | digit) | rfl
  · rw [isAlpha_iff] at alphabetic
    omega
  · exact (Char.isDigit_iff_toNat.mp digit).1
  · decide

theorem toNat_le_of_space {c : Char} (blank : space c) : c.toNat ≤ 32 := by
  simp only [space, Bool.or_eq_true, decide_eq_true_eq, Bool.and_eq_true] at blank
  rcases blank with rfl | control
  · decide
  · omega

theorem not_space_of_isLetter {c : Char} (letter : isLetter c) : ¬ space c := by
  intro blank
  have above := le_toNat_of_isLetter letter
  have below := toNat_le_of_space blank
  omega

theorem isLetter_of_isAlpha {c : Char} (alphabetic : c.isAlpha) : isLetter c := by
  simp [isLetter, Char.isAlphanum, alphabetic]

theorem isLetter_of_isDigit {c : Char} (digit : c.isDigit) : isLetter c := by
  simp [isLetter, Char.isAlphanum, digit]

theorem not_isAlpha_of_isDigit {c : Char} (digit : c.isDigit) : ¬ c.isAlpha := by
  have below : c.toNat ≤ 57 := (Char.isDigit_iff_toNat.mp digit).2
  rw [isAlpha_iff]
  omega

/-! ### Names and numbers -/

/-- White space, or nothing at all. -/
def Blanks (blanks : Text) : Prop := ∀ c ∈ blanks, space c

theorem blanks_nil : Blanks [] := by
  intro c member
  cases member

theorem blanks_one : Blanks [' '] := by
  intro c member
  rw [List.mem_singleton.mp member]
  rfl

/-- A keyword or an operator, with white space in front or without. -/
theorem reads_lit {blanks : Text} (empty : Blanks blanks) {initial : Char}
    (starts : ¬ space initial) (text : Text) :
    Reads (lit (initial :: text)) (blanks ++ initial :: text) (initial :: text) Anything :=
  Reads.skip empty starts (reads_literal (initial :: text))

theorem reads_identifier {blanks : Text} (empty : Blanks blanks) (identifier : Identifier) :
    Reads SQL.identifier (blanks ++ identifier.name) identifier.name (Stops isLetter) := by
  have starts : ¬ space identifier.letter :=
    not_space_of_isLetter (isLetter_of_isAlpha identifier.alphabetic)
  have name := (reads_token identifier.alphabetic).seq (reads_tokens identifier.letters)
    fun _ _ => trivial
  exact Reads.skip empty starts name.map

/-- A name begins with a letter. -/
theorem fails_identifier {blanks : Text} (empty : Blanks blanks) {initial : Char}
    (starts : ¬ space initial) (other : ¬ initial.isAlpha) (text : Text) :
    Fails SQL.identifier (blanks ++ initial :: text) Anything := by
  apply Fails.skip empty starts
  apply Fails.map
  apply Fails.seq_left
  intro rest _
  exact if_neg other

theorem isDigit_of_mem_toDigits (number : Nat) {c : Char}
    (member : c ∈ Nat.toDigits 10 number) : c.isDigit :=
  Nat.isDigit_of_mem_toDigits (by decide) (by decide) member

/-- The digits of a number and the rest behind them. -/
theorem takeWhile_toDigits (number : Nat) {rest : Text} (stops : Stops isLetter rest) :
    (Nat.toDigits 10 number ++ rest).takeWhile Char.isDigit = Nat.toDigits 10 number ∧
      (Nat.toDigits 10 number ++ rest).dropWhile Char.isDigit = rest := by
  have digits : ∀ c ∈ Nat.toDigits 10 number, c.isDigit := fun c member =>
    isDigit_of_mem_toDigits number member
  rw [List.takeWhile_append_of_pos digits, List.dropWhile_append_of_pos digits]
  cases rest with
  | nil => simp
  | cons next rest =>
      have other : ¬ next.isDigit := fun digit => stops next rfl (isLetter_of_isDigit digit)
      simp [other]

theorem toDigits_cons (number : Nat) :
    ∃ digit digits, Nat.toDigits 10 number = digit :: digits ∧ digit.isDigit := by
  obtain ⟨digit, digits, split⟩ :=
    List.exists_cons_of_ne_nil (Nat.toDigits_ne_nil (n := number) (b := 10))
  refine ⟨digit, digits, split, ?_⟩
  apply isDigit_of_mem_toDigits number
  rw [split]
  exact List.mem_cons_self

/-- A number does not begin with a sign. -/
theorem head_toDigits (number : Nat) (rest : Text) :
    ∃ digit, digit.isDigit ∧ (Nat.toDigits 10 number ++ rest).head? = some digit := by
  obtain ⟨digit, digits, split, decimal⟩ := toDigits_cons number
  rw [split]
  exact ⟨digit, decimal, rfl⟩

theorem reads_extract_int (number : IntLiteral) :
    Reads extract_int (printInt number.value) number.value (Stops isLetter) := by
  intro rest stops
  obtain ⟨digits, behind⟩ := takeWhile_toDigits number.value.natAbs stops
  have read : Nat.ofDigitChars 10 (Nat.toDigits 10 number.value.natAbs) 0 =
      number.value.natAbs := Nat.ofDigitChars_toDigits (by decide) (by decide)
  by_cases negative : number.value < 0
  · have value : -(number.value.natAbs : Int) = number.value := by omega
    have printed : printInt number.value =
        '-' :: Nat.toDigits 10 number.value.natAbs := if_pos negative
    have some_digits := Nat.toDigits_ne_nil (n := number.value.natAbs) (b := 10)
    simp only [extract_int, printed, List.cons_append, List.head?_cons, true_or, if_true,
      List.tail_cons, digits, behind, read, value]
    exact if_pos ⟨some_digits, number.lower, number.upper⟩
  · have value : (number.value.natAbs : Int) = number.value := by omega
    obtain ⟨digit, decimal, first⟩ := head_toDigits number.value.natAbs rest
    have minus : digit ≠ '-' := by
      rintro rfl
      cases decimal
    have plus : digit ≠ '+' := by
      rintro rfl
      cases decimal
    simp [extract_int, printInt, negative, first, minus, plus, digits, behind, read, value,
      number.lower, number.upper]

/-- What a number begins with. -/
theorem printInt_cons (value : Int) :
    ∃ initial text, printInt value = initial :: text ∧ ¬ space initial ∧
      ¬ initial.isAlpha := by
  by_cases negative : value < 0
  · exact ⟨'-', _, if_pos negative, by decide, by decide⟩
  · obtain ⟨digit, text, split, decimal⟩ := toDigits_cons value.natAbs
    exact ⟨digit, text, (if_neg negative).trans split,
      not_space_of_isLetter (isLetter_of_isDigit decimal), not_isAlpha_of_isDigit decimal⟩

theorem reads_int {blanks : Text} (empty : Blanks blanks) (number : IntLiteral) :
    Reads int_ (blanks ++ printInt number.value) number.value (Stops isLetter) := by
  obtain ⟨initial, text, split, starts, _⟩ := printInt_cons number.value
  have read := reads_extract_int number
  rw [split] at read ⊢
  exact Reads.skip empty starts read

theorem reads_additive {blanks : Text} (empty : Blanks blanks) (primary : Primary) :
    Reads additive_expression (blanks ++ primary.text) primary.ast (Stops isLetter) := by
  cases primary with
  | column identifier =>
      exact (Reads.choice_left (reads_identifier empty identifier).map).map
  | literal number =>
      have read := reads_int empty number
      obtain ⟨initial, text, split, starts, other⟩ := printInt_cons number.value
      apply Reads.map
      apply Reads.choice_right
      · rw [Primary.text, split]
        have fails := fails_identifier empty starts other text
        exact Fails.map fun rest _ => fails rest trivial
      · exact read.map

/-! ### Comparisons -/

theorem reads_operation {operator_ : Text} {initial : Char} {text : Text}
    (split : operator_ = initial :: text) (starts : ¬ space initial) (right : Primary) :
    Reads (operation operator_ additive_expression) (' ' :: operator_ ++ ' ' :: right.text)
      (operator_, right.ast) (Stops isLetter) := by
  subst split
  apply Reads.expect
  · exact reads_lit blanks_one starts text
  · exact reads_additive blanks_one right
  · intro _ _
    trivial

theorem fails_operation {operator_ : Text} {initial : Char} {text : Text}
    {operand_ : PEG.Parser Char Operand} (starts : ¬ space initial)
    (differs : ∀ rest, ¬ operator_ <+: initial :: (text ++ rest))
    (follows : Text → Prop) :
    Fails (operation operator_ operand_) (' ' :: initial :: text) follows := by
  apply Fails.expect
  apply Fails.skip blanks_one starts
  apply fails_literal
  intro rest _
  exact differs rest

/-- The text of a comparison from the blank in front of the comparator. -/
def compared (comparator : Comparator) (right : Primary) : Text :=
  ' ' :: comparator.text ++ ' ' :: right.text

theorem reads_comparison {comparator : Comparator} (supported : comparator ≠ .unequal)
    (right : Primary) :
    Reads comparison (compared comparator right) (comparator.text, right.ast)
      (Stops isLetter) := by
  have less : ¬ space '<' := by decide
  have greater : ¬ space '>' := by decide
  have equal : ¬ space '=' := by decide
  cases comparator with
  | unequal => exact absurd rfl supported
  | lessEqual => exact Reads.choice_left (reads_operation rfl less right)
  | less =>
      apply Reads.choice_right
      · exact fails_operation less (by simp [List.cons_prefix_cons]) _
      · exact Reads.choice_left (reads_operation rfl less right)
  | greaterEqual =>
      apply Reads.choice_right
      · exact fails_operation greater (by simp [List.cons_prefix_cons]) _
      apply Reads.choice_right
      · exact fails_operation greater (by simp [List.cons_prefix_cons]) _
      · exact Reads.choice_left (reads_operation rfl greater right)
  | greater =>
      apply Reads.choice_right
      · exact fails_operation greater (by simp [List.cons_prefix_cons]) _
      apply Reads.choice_right
      · exact fails_operation greater (by simp [List.cons_prefix_cons]) _
      apply Reads.choice_right
      · exact fails_operation greater (by simp [List.cons_prefix_cons]) _
      · exact Reads.choice_left (reads_operation rfl greater right)
  | equal =>
      apply Reads.choice_right
      · exact fails_operation equal (by simp [List.cons_prefix_cons]) _
      apply Reads.choice_right
      · exact fails_operation equal (by simp [List.cons_prefix_cons]) _
      apply Reads.choice_right
      · exact fails_operation equal (by simp [List.cons_prefix_cons]) _
      apply Reads.choice_right
      · exact fails_operation equal (by simp [List.cons_prefix_cons]) _
      apply Reads.choice_right
      · exact fails_operation equal (by simp [List.cons_prefix_cons]) _
      · exact reads_operation rfl equal right

/-- `<` is read, and the `>` behind it is no operand. -/
theorem throws_comparison (right : Primary) :
    Throws comparison (compared .unequal right) Anything := by
  have less : ¬ space '<' := by decide
  have greater : ¬ space '>' := by decide
  apply Throws.choice_right
  · exact fails_operation less (by simp [List.cons_prefix_cons]) _
  apply Throws.choice_left
  have operator_ := reads_lit blanks_one less []
  have operand_ : Fails additive_expression ('>' :: ' ' :: right.text) Anything := by
    apply Fails.map
    apply Fails.choice
    · exact (fails_identifier blanks_nil greater (by decide) _).map
    · apply Fails.map
      exact Fails.skip blanks_nil greater fun rest _ => rfl
  have throws : Throws (operation ['<'] additive_expression)
      ([' ', '<'] ++ '>' :: ' ' :: right.text) Anything :=
    Throws.expect operator_ operand_ fun _ _ => trivial
  exact throws

/-- No comparator comes next. -/
def Ends (rest : Text) : Prop := Stops isLetter rest ∧ comparison rest = .failure

theorem ends_nil : Ends [] := ⟨stops_nil isLetter, rfl⟩

theorem ends_connected (next : Connective × Comparison) (rest : Text) :
    Ends (connected next ++ rest) := by
  constructor
  · exact stops_cons (by decide) _
  · obtain ⟨connective, comparison⟩ := next
    cases connective <;> rfl

theorem text_eq (comparison : Comparison) :
    comparison.text = comparison.left.text ++
      compared comparison.comparator comparison.right := by
  rw [Comparison.text, compared, List.append_assoc]

theorem stops_compared (comparator : Comparator) (right : Primary) (rest : Text) :
    Stops isLetter (compared comparator right ++ rest) :=
  stops_cons (by decide) _

theorem reads_relational {blanks : Text} (empty : Blanks blanks) {comparison : Comparison}
    (supported : comparison.comparator ≠ .unequal) :
    Reads relational_expression (blanks ++ comparison.text) comparison.ast Ends := by
  have operations : Reads (many SQL.comparison)
      (compared comparison.comparator comparison.right)
      [(comparison.comparator.text, comparison.right.ast)] Ends :=
    (reads_comparison supported comparison.right).many_one (List.cons_ne_nil _ _)
      (stops_compared _ _) (fun _ ends => ends.1) fun _ ends => ends.2
  have whole := (reads_additive empty comparison.left).seq operations fun rest _ =>
    stops_compared _ _ rest
  rw [text_eq, ← List.append_assoc]
  exact whole.map

theorem throws_relational {blanks : Text} (empty : Blanks blanks) {comparison : Comparison}
    (unsupported : comparison.comparator = .unequal) (follows : Text → Prop) :
    Throws relational_expression (blanks ++ comparison.text) follows := by
  have operations : Throws (many SQL.comparison)
      (compared comparison.comparator comparison.right) Anything := by
    rw [unsupported]
    exact (throws_comparison comparison.right).many_first
  have whole := Throws.seq_right (reads_additive empty comparison.left) operations
    fun rest _ => stops_compared _ _ rest
  rw [text_eq, ← List.append_assoc]
  exact (whole.map).weaken fun _ _ => trivial

/-! ### Conditions -/

theorem reads_connection {next : Connective × Comparison}
    (supported : next.2.comparator ≠ .unequal) :
    Reads connection (connected next) (next.1.text, next.2.ast) Ends := by
  obtain ⟨connective, comparison⟩ := next
  have right := reads_relational blanks_one supported
  have letter : ¬ space 'a' := by decide
  have other : ¬ space 'o' := by decide
  cases connective with
  | and =>
      apply Reads.choice_left
      exact (reads_lit blanks_one letter ['n', 'd']).expect right fun _ _ => trivial
  | or =>
      apply Reads.choice_right
      · exact fails_operation other (by simp [List.cons_prefix_cons]) _
      · exact (reads_lit blanks_one other ['r']).expect right fun _ _ => trivial

theorem throws_connection {next : Connective × Comparison}
    (unsupported : next.2.comparator = .unequal) (follows : Text → Prop) :
    Throws connection (connected next) follows := by
  obtain ⟨connective, comparison⟩ := next
  have right := throws_relational blanks_one unsupported follows
  have letter : ¬ space 'a' := by decide
  have other : ¬ space 'o' := by decide
  cases connective with
  | and =>
      apply Throws.choice_left
      exact Throws.expect_right (reads_lit blanks_one letter ['n', 'd']) right
        fun _ _ => trivial
  | or =>
      apply Throws.choice_right
      · exact fails_operation other (by simp [List.cons_prefix_cons]) _
      · exact Throws.expect_right (reads_lit blanks_one other ['r']) right fun _ _ => trivial

/-- What `many` reads of the comparisons behind the first. -/
def entries (others : List (Connective × Comparison)) : List (Text × Text × Operand) :=
  others.map fun next => (connected next, next.1.text, next.2.ast)

theorem flatMap_entries (others : List (Connective × Comparison)) :
    (entries others).flatMap Prod.fst = others.flatMap connected := by
  rw [entries, List.flatMap_map]

theorem map_entries (others : List (Connective × Comparison)) :
    (entries others).map Prod.snd = others.map fun next => (next.1.text, next.2.ast) := by
  rw [entries, List.map_map]
  rfl

theorem entries_read {others : List (Connective × Comparison)}
    (supported : ∀ next ∈ others, next.2.comparator ≠ .unequal) :
    (∀ entry ∈ entries others, Reads connection entry.1 entry.2 Ends) ∧
      (∀ entry ∈ entries others, entry.1 ≠ []) ∧
        ∀ entry ∈ entries others, ∀ rest, Ends (entry.1 ++ rest) := by
  refine ⟨?_, ?_, ?_⟩
  · intro entry member
    obtain ⟨next, inside, rfl⟩ := List.mem_map.mp member
    exact reads_connection (supported next inside)
  · intro entry member
    obtain ⟨next, _, rfl⟩ := List.mem_map.mp member
    exact List.cons_ne_nil _ _
  · intro entry member rest
    obtain ⟨next, _, rfl⟩ := List.mem_map.mp member
    exact ends_connected next rest

/-- The statement is at its end. -/
def AtEnd (rest : Text) : Prop := rest = []

theorem reads_expression {blanks : Text} (empty : Blanks blanks) {condition : Condition}
    (first : condition.first.comparator ≠ .unequal)
    (others : ∀ next ∈ condition.others, next.2.comparator ≠ .unequal) :
    Reads expression (blanks ++ condition.text) condition.ast AtEnd := by
  obtain ⟨each, consuming, adjacent⟩ := entries_read others
  have ends {rest : Text} (finished : AtEnd rest) : Ends rest := by
    rw [finished]
    exact ends_nil
  have nothing : Fails connection [] AtEnd := by
    intro rest finished
    rw [finished]
    rfl
  have connections := Reads.many each consuming adjacent (fun _ => ends) nothing
  have whole := (reads_relational empty first).seq connections (by
    intro rest finished
    cases condition.others with
    | nil => exact ends finished
    | cons next others =>
        simp only [entries, List.map_cons, List.flatMap_cons, List.append_assoc]
        exact ends_connected next _)
  rw [flatMap_entries, map_entries, List.append_assoc] at whole
  rw [Condition.text]
  exact whole.map

/-- The first comparison with `<>` behind others without. -/
theorem exists_first_unequal {others : List (Connective × Comparison)}
    (some_unequal : ∃ next ∈ others, next.2.comparator = .unequal) :
    ∃ before next behind, others = before ++ next :: behind ∧
      (∀ earlier ∈ before, earlier.2.comparator ≠ .unequal) ∧
        next.2.comparator = .unequal := by
  induction others with
  | nil =>
      obtain ⟨next, member, _⟩ := some_unequal
      cases member
  | cons first others induction =>
      by_cases here : first.2.comparator = .unequal
      · refine ⟨[], first, others, rfl, ?_, here⟩
        intro earlier member
        cases member
      · obtain ⟨next, member, unequal⟩ := some_unequal
        have later : next ∈ others := by
          rcases List.mem_cons.mp member with rfl | inside
          · exact absurd unequal here
          · exact inside
        obtain ⟨before, next, behind, rfl, supported, unequal⟩ :=
          induction ⟨next, later, unequal⟩
        refine ⟨first :: before, next, behind, rfl, ?_, unequal⟩
        intro earlier member
        rcases List.mem_cons.mp member with rfl | inside
        · exact here
        · exact supported earlier inside

/-- The exception of one comparison is that of the whole condition. -/
theorem throws_expression {blanks : Text} (empty : Blanks blanks) {condition : Condition}
    (unsupported : condition.first.comparator = .unequal ∨
      ∃ next ∈ condition.others, next.2.comparator = .unequal) (follows : Text → Prop) :
    Throws expression (blanks ++ condition.text) follows := by
  rw [Condition.text, ← List.append_assoc]
  by_cases first : condition.first.comparator = .unequal
  · have throws := throws_relational empty first Anything
    exact (Throws.seq_left throws).map.longer _
  · obtain ⟨before, next, behind, split, supported, unequal⟩ :=
      exists_first_unequal (unsupported.resolve_left first)
    obtain ⟨each, consuming, adjacent⟩ := entries_read supported
    have connections := Throws.many each consuming adjacent (ends_connected next)
      (throws_connection unequal Anything)
    rw [flatMap_entries] at connections
    have reached : ∀ rest, Anything rest →
        Ends (before.flatMap connected ++ connected next ++ rest) := by
      intro rest _
      cases before with
      | nil => exact ends_connected next rest
      | cons earlier before =>
          simp only [List.flatMap_cons, List.append_assoc]
          exact ends_connected earlier _
    have whole := Throws.seq_right (reads_relational empty first) connections reached
    have text : blanks ++ condition.first.text ++ condition.others.flatMap connected =
        blanks ++ condition.first.text ++
          (before.flatMap connected ++ connected next) ++ behind.flatMap connected := by
      rw [split, List.flatMap_append, List.flatMap_cons]
      simp only [List.append_assoc]
    rw [text]
    exact whole.map.longer _

/-! ### Whole queries -/

/-- A clause behind the columns. -/
def AtClause (rest : Text) : Prop := ∃ tail, rest = ' ' :: 'f' :: tail

theorem reads_columns (columns : Columns) :
    Reads (choice column_list star) (' ' :: columns.text) columns.ast AtClause := by
  cases columns with
  | all =>
      have blank : ¬ space '*' := by decide
      apply Reads.choice_right
      · apply Fails.map
        apply Fails.seq_left
        have fails := fails_identifier blanks_one blank (by decide) []
        exact fun rest _ => fails rest trivial
      · apply Reads.map
        have read := reads_lit blanks_one blank []
        exact read.weaken fun _ _ => trivial
  | names first others =>
      apply Reads.choice_left
      have comma : ¬ space ',' := by decide
      have separator := reads_lit blanks_nil comma []
      have each : ∀ entry ∈ others.map fun other =>
          ([','] ++ ([' '] ++ other.name), other.name),
          Reads (PEG.map Prod.snd (seq (lit [',']) identifier)) entry.1 entry.2
            (Stops isLetter) := by
        intro entry member
        obtain ⟨other, _, rfl⟩ := List.mem_map.mp member
        exact (separator.seq (reads_identifier blanks_one other) fun _ _ => trivial).map
      have consuming : ∀ entry ∈ others.map fun other =>
          ([','] ++ ([' '] ++ other.name), other.name), entry.1 ≠ [] := by
        intro entry member
        obtain ⟨other, _, rfl⟩ := List.mem_map.mp member
        exact List.cons_ne_nil _ _
      have adjacent : ∀ entry ∈ others.map fun other =>
          ([','] ++ ([' '] ++ other.name), other.name),
          ∀ rest, Stops isLetter (entry.1 ++ rest) := by
        intro entry member rest
        obtain ⟨other, _, rfl⟩ := List.mem_map.mp member
        exact stops_cons (by decide) _
      have stops : ∀ rest, AtClause rest → Stops isLetter rest := by
        intro rest clause
        obtain ⟨tail, rfl⟩ := clause
        exact stops_cons (by decide) _
      have nothing : Fails (PEG.map Prod.snd (seq (lit [',']) identifier)) [] AtClause := by
        apply Fails.map
        apply Fails.seq_left
        intro rest clause
        obtain ⟨tail, rfl⟩ := clause
        rfl
      have columns := Reads.many each consuming adjacent stops nothing
      have whole := (reads_identifier blanks_one first).seq columns (by
        intro rest clause
        cases others with
        | nil => exact stops rest clause
        | cons other others => exact stops_cons (by decide) _)
      have read := whole.map (f := fun columns => columns.1 :: columns.2)
      simpa [Columns.text, Columns.ast, printColumns, column_list, List.flatMap_map,
        Function.comp_def] using read

/-- The clauses that every query has. -/
theorem reads_clauses (query : Query) :
    Reads (seq select_clause from_clause)
      ((['s', 'e', 'l', 'e', 'c', 't'] ++ ' ' :: query.columns.text) ++
        ([' ', 'f', 'r', 'o', 'm'] ++ ([' '] ++ query.table.name)))
      (query.columns.ast, query.table.name) (Stops isLetter) := by
  have select : ¬ space 's' := by decide
  have fromLetter : ¬ space 'f' := by decide
  have selectWord := reads_lit blanks_nil select ['e', 'l', 'e', 'c', 't']
  have fromWord := reads_lit blanks_one fromLetter ['r', 'o', 'm']
  have columns : Reads select_clause (['s', 'e', 'l', 'e', 'c', 't'] ++
      ' ' :: query.columns.text) query.columns.ast AtClause :=
    (selectWord.seq (reads_columns query.columns) fun _ _ => trivial).map
  have table : Reads from_clause ([' ', 'f', 'r', 'o', 'm'] ++ ([' '] ++ query.table.name))
      query.table.name (Stops isLetter) :=
    (fromWord.seq (reads_identifier blanks_one query.table) fun _ _ => trivial).map
  exact columns.seq table fun rest _ => ⟨_, rfl⟩

theorem whereText_some (condition : Condition) :
    whereText (some condition) =
      [' ', 'w', 'h', 'e', 'r', 'e'] ++ ([' '] ++ condition.text) := by
  rw [whereText, Condition.ast_print]
  rfl

theorem reads_where {condition : Condition}
    (first : condition.first.comparator ≠ .unequal)
    (others : ∀ next ∈ condition.others, next.2.comparator ≠ .unequal) :
    Reads where_clause (whereText (some condition)) condition.ast AtEnd := by
  have letter : ¬ space 'w' := by decide
  have word := reads_lit blanks_one letter ['h', 'e', 'r', 'e']
  rw [whereText_some]
  exact (word.seq (reads_expression blanks_one first others) fun _ _ => trivial).map

theorem throws_where {condition : Condition}
    (unsupported : condition.first.comparator = .unequal ∨
      ∃ next ∈ condition.others, next.2.comparator = .unequal) :
    Throws where_clause (whereText (some condition)) AtEnd := by
  have letter : ¬ space 'w' := by decide
  have word := reads_lit blanks_one letter ['h', 'e', 'r', 'e']
  rw [whereText_some]
  exact (Throws.seq_right word (throws_expression blanks_one unsupported AtEnd)
    fun _ _ => trivial).map

/-- The condition of a query without `<>`, if there is one. -/
theorem reads_optionalWhere {query : Query}
    (supported : ∀ comparison ∈ query.comparisons, comparison.comparator ≠ .unequal) :
    Reads (optional where_clause) (whereText query.condition)
      (query.condition.map Condition.ast) AtEnd := by
  obtain ⟨columns, table, condition⟩ := query
  cases condition with
  | none =>
      intro rest finished
      rw [finished]
      rfl
  | some condition =>
      exact (reads_where (supported condition.first List.mem_cons_self) fun next member =>
        supported next.2 (List.mem_cons_of_mem _ (List.mem_map_of_mem member))).optional

theorem throws_optionalWhere {query : Query}
    (unsupported : ∃ comparison ∈ query.comparisons, comparison.comparator = .unequal) :
    Throws (optional where_clause) (whereText query.condition) AtEnd := by
  obtain ⟨columns, table, condition⟩ := query
  obtain ⟨comparison, member, unequal⟩ := unsupported
  cases condition with
  | none => cases member
  | some condition =>
      apply Throws.optional
      apply throws_where
      rcases List.mem_cons.mp member with rfl | inside
      · exact Or.inl unequal
      · obtain ⟨next, found, rfl⟩ := List.mem_map.mp inside
        exact Or.inr ⟨next, found, unequal⟩

/-- The lower-case text of a query, clause by clause. -/
theorem text_lowerCase (query : Query) :
    query.text .lowerCase =
      (['s', 'e', 'l', 'e', 'c', 't'] ++ ' ' :: query.columns.text) ++
        ([' ', 'f', 'r', 'o', 'm'] ++ ([' '] ++ query.table.name)) ++
          whereText query.condition := by
  simp [Query.text]

theorem stops_whereText (condition : Option Condition) {rest : Text} (finished : AtEnd rest) :
    Stops isLetter (whereText condition ++ rest) := by
  cases condition with
  | none =>
      rw [finished]
      exact stops_nil isLetter
  | some condition => exact stops_cons (by decide) _

/-- A query comes back from its printed form just when the keywords are in lower case and
no comparison is with `<>`. -/
theorem sqlParser_roundTrips_iff (spelling : Spelling) (query : Query) :
    RoundTrips spelling query ↔ spelling = .lowerCase ∧
      ∀ comparison ∈ query.comparisons, comparison.comparator ≠ .unequal := by
  cases spelling with
  | printed =>
      have rejected : parse (query.text .printed) = none := rfl
      simp [RoundTrips, rejected]
  | lowerCase =>
      rw [RoundTrips, text_lowerCase]
      constructor
      · intro same
        refine ⟨rfl, ?_⟩
        intro comparison member unequal
        have throws := (Throws.seq_right (reads_clauses query)
          (throws_optionalWhere ⟨comparison, member, unequal⟩)
          (fun _ => stops_whereText query.condition)).map (f := fun clauses =>
            (⟨clauses.1.1, clauses.1.2, clauses.2⟩ : SQLQuery)) [] rfl
        rw [List.append_nil] at throws
        simp only [parse, start, throws] at same
        cases same
      · intro supported
        have read := ((reads_clauses query).seq (reads_optionalWhere supported.2)
          (fun _ => stops_whereText query.condition)).map (f := fun clauses =>
            (⟨clauses.1.1, clauses.1.2, clauses.2⟩ : SQLQuery)) [] rfl
        rw [List.append_nil] at read
        simp only [parse, start, read]
        rfl

def columnA : Identifier := ⟨'a', [], rfl, List.forall_mem_nil _⟩

/-- `select a from a where a <> a`. -/
def unequalQuery : Query where
  columns := .names columnA []
  table := columnA
  condition := some ⟨⟨.column columnA, .unequal, .column columnA⟩, []⟩

/-- This query does not come back, however it is printed. -/
theorem not_sqlParser_roundTrips :
    ¬ ∀ query : Query, RoundTrips .printed query ∨ RoundTrips .lowerCase query := by
  intro every
  have printed : parse (unequalQuery.text .printed) = none := rfl
  have lowerCase : parse (unequalQuery.text .lowerCase) = none := rfl
  rcases every unequalQuery with same | same
  · rw [RoundTrips, printed] at same
    cases same
  · rw [RoundTrips, lowerCase] at same
    cases same

end PipeFabric.SQL
