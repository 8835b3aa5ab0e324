import Mathlib.Data.List.Forall2
import Mathlib.Data.List.Induction
import PipeFabric.Qcomp.CppExpression

/-!
# What generated conditions mean

The generated text, read as C++, has the structure of the condition: comparisons bind
most tightly, then `and`, then `or`.  The comparisons are those of the condition except
that C++ converts an `int` next to an `unsigned int`.
-/

namespace PipeFabric.SQL

open PEG TableInfo

variable {Double : Type}

/-! ### The meaning of a condition -/

/-- The position of a column in the schema. -/
def position (inputSchema : List ColumnInfo) (identifier : Identifier) : Nat :=
  inputSchema.findIdx fun column => column.mColName = identifier.name

/-- The value of an operand.  The types of literals, which comparisons by value do not look
at, are those of C++. -/
def Primary.value (inputSchema : List ColumnInfo) (tp : List (Cpp.Value Double)) :
    Primary → Option (Cpp.Value Double)
  | .column identifier => tp[position inputSchema identifier]?
  | .literal number =>
      some (.integer (if number.value = -2147483648 then .long else .int) number.value)

/-- A way to compare two values. -/
abbrev Comparing (Double : Type) : Type :=
  Comparator → Cpp.Value Double → Cpp.Value Double → Option Bool

def Comparison.meaning (compare : Comparing Double) (inputSchema : List ColumnInfo)
    (tp : List (Cpp.Value Double)) (comparison : Comparison) : Option Bool := do
  compare comparison.comparator (← comparison.left.value inputSchema tp)
    (← comparison.right.value inputSchema tp)

def both (left right : Option Bool) : Option Bool := do return (← left) && (← right)

def either (left right : Option Bool) : Option Bool := do return (← left) || (← right)

/-- Comparisons connected with `and`. -/
structure Conjunction where
  first : Comparison
  others : List Comparison

/-- The comparisons that `and` connects with the one in front of them, and the conjunctions
behind the first `or`. -/
def groups : List (Connective × Comparison) → List Comparison × List Conjunction
  | [] => ([], [])
  | (.and, next) :: others => (next :: (groups others).1, (groups others).2)
  | (.or, next) :: others => ([], ⟨next, (groups others).1⟩ :: (groups others).2)

def Conjunction.meaning (compare : Comparing Double) (inputSchema : List ColumnInfo)
    (tp : List (Cpp.Value Double)) (conjunction : Conjunction) : Option Bool :=
  conjunction.others.foldl (fun left next => both left (next.meaning compare inputSchema tp))
    (conjunction.first.meaning compare inputSchema tp)

/-- `and` binds more tightly than `or`. -/
def Condition.meaning (compare : Comparing Double) (inputSchema : List ColumnInfo)
    (tp : List (Cpp.Value Double)) (condition : Condition) : Option Bool :=
  (groups condition.others).2.foldl
    (fun left next => either left (next.meaning compare inputSchema tp))
    (Conjunction.meaning compare inputSchema tp
      ⟨condition.first, (groups condition.others).1⟩)

/-- An `int` next to an unsigned number is taken modulo `2 ^ 32`. -/
def wrapped (other operand : Cpp.Value Double) : Cpp.Value Double :=
  match other, operand with
  | .integer .unsigned _, .integer .int value => .integer .unsigned (value % 4294967296)
  | _, operand => operand

/-- Comparisons with wrapped operands. -/
def compareWrapped [Cpp.FloatingPoint Double] : Comparing Double :=
  fun operator left right =>
    Cpp.Value.compare operator (wrapped right left) (wrapped left right)

/-- A value of a column. -/
def Fits : ColumnInfo → Cpp.Value Double → Prop
  | ⟨_, .Int_Type⟩, .integer .int value => -2147483648 ≤ value ∧ value < 2147483648
  | ⟨_, .UInt_Type⟩, .integer .unsigned value => 0 ≤ value ∧ value < 4294967296
  | ⟨_, .Double_Type⟩, .double _ => True
  | ⟨_, .String_Type⟩, .string _ => True
  | _, _ => False

def Primary.columns : Primary → List Identifier
  | .column identifier => [identifier]
  | .literal _ => []

def Comparison.columns (comparison : Comparison) : List Identifier :=
  comparison.left.columns ++ comparison.right.columns

/-- The columns that the condition uses. -/
def Condition.columns (condition : Condition) : List Identifier :=
  (condition.first :: condition.others.map Prod.snd).flatMap Comparison.columns

/-! ### The generated text -/

def Primary.code (inputSchema : List ColumnInfo) : Primary → Text
  | .column identifier =>
      ['g', 'e', 't', '<'] ++ Nat.toDigits 10 (position inputSchema identifier) ++
        ['>', '(', 't', 'p', ')']
  | .literal number => printInt number.value

def Comparison.code (inputSchema : List ColumnInfo) (comparison : Comparison) : Text :=
  comparison.left.code inputSchema ++ ' ' :: cppOperator comparison.comparator.text ++
    ' ' :: comparison.right.code inputSchema

/-- A comparison behind an operator. -/
def behind (inputSchema : List ColumnInfo) (operator : Text) (comparison : Comparison) : Text :=
  ' ' :: operator ++ ' ' :: comparison.code inputSchema

def Conjunction.code (inputSchema : List ColumnInfo) (conjunction : Conjunction) : Text :=
  conjunction.first.code inputSchema ++
    conjunction.others.flatMap (behind inputSchema ['&', '&'])

def Condition.code (inputSchema : List ColumnInfo) (condition : Condition) : Text :=
  Conjunction.code inputSchema ⟨condition.first, (groups condition.others).1⟩ ++
    (groups condition.others).2.flatMap fun next =>
      ' ' :: '|' :: '|' :: ' ' :: next.code inputSchema

section

variable {inputSchema : List ColumnInfo}

/-- With distinct names the last column of a name is the first one. -/
theorem columnMap_eq (distinct : (inputSchema.map ColumnInfo.mColName).Nodup)
    {identifier : Identifier}
    (known : identifier.name ∈ inputSchema.map ColumnInfo.mColName) :
    columnMap inputSchema identifier.name = some (position inputSchema identifier) := by
  induction inputSchema using List.reverseRecOn with
  | nil => cases known
  | append_singleton columns last induction =>
      rw [List.map_append, List.map_singleton] at distinct known
      obtain ⟨earlier, _, disjoint⟩ := List.nodup_append.mp distinct
      rw [columnMap, List.zipIdx_append, List.foldl_append]
      simp only [List.zipIdx_singleton, List.foldl_cons, List.foldl_nil, Nat.zero_add]
      by_cases here : last.mColName = identifier.name
      · have absent : ∀ column ∈ columns, ¬ column.mColName = identifier.name := by
          intro column member same
          exact disjoint _ (List.mem_map_of_mem member) _ List.mem_cons_self
            (same.trans here.symm)
        rw [if_pos here, position, List.findIdx_append,
          List.findIdx_eq_length_of_false (by simpa using absent)]
        simp [here]
      · have among : identifier.name ∈ columns.map ColumnInfo.mColName := by
          rcases List.mem_append.mp known with inside | same
          · exact inside
          · exact absurd (List.mem_singleton.mp same).symm here
        obtain ⟨column, member, same⟩ := List.mem_map.mp among
        have found : columns.findIdx (fun column => column.mColName = identifier.name) <
            columns.length := List.findIdx_lt_length_of_exists ⟨column, member, by simp [same]⟩
        rw [if_neg here, position, List.findIdx_append, if_pos found]
        exact induction earlier among

/-! The generated text of an abstract syntax tree is the code of the condition. -/

/-- The operand has this code. -/
def Generates (inputSchema : List ColumnInfo) (operand : Operand) (code : Text) : Prop :=
  ∃ mapped, mapColumns (columnMap inputSchema) operand = some mapped ∧ mapped.generate = code

theorem Primary.generates (distinct : (inputSchema.map ColumnInfo.mColName).Nodup)
    {primary : Primary}
    (known : ∀ column ∈ primary.columns,
      column.name ∈ inputSchema.map ColumnInfo.mColName) :
    Generates inputSchema primary.ast (primary.code inputSchema) := by
  cases primary with
  | column identifier =>
      have found := columnMap_eq distinct (known identifier List.mem_cons_self)
      refine ⟨.rightAssoc (.column identifier.name (position inputSchema identifier)), ?_, rfl⟩
      simp only [Primary.ast, mapColumns, found, Option.map_some]
  | literal number => exact ⟨.rightAssoc (.literal number.value), rfl, rfl⟩

theorem Comparison.generates (distinct : (inputSchema.map ColumnInfo.mColName).Nodup)
    {comparison : Comparison}
    (known : ∀ column ∈ comparison.columns,
      column.name ∈ inputSchema.map ColumnInfo.mColName) :
    Generates inputSchema comparison.ast (comparison.code inputSchema) := by
  obtain ⟨left, leftMapped, leftCode⟩ := Primary.generates distinct fun column member =>
    known column (List.mem_append_left _ member)
  obtain ⟨right, rightMapped, rightCode⟩ := Primary.generates distinct fun column member =>
    known column (List.mem_append_right _ member)
  refine ⟨.expression left [(comparison.comparator.text, right)], ?_, ?_⟩
  · simp only [Comparison.ast, mapColumns, mapColumns.mapTail, leftMapped, rightMapped]
    rfl
  · simp only [MappedOperand.generate, MappedOperand.generate.generateTail, leftCode,
      rightCode, List.append_nil, Comparison.code, List.append_assoc]

/-- The code of the comparisons behind the first one. -/
def connectedCode (inputSchema : List ColumnInfo) (next : Connective × Comparison) : Text :=
  behind inputSchema (cppOperator next.1.text) next.2

theorem mapTail_connected (distinct : (inputSchema.map ColumnInfo.mColName).Nodup)
    {others : List (Connective × Comparison)}
    (known : ∀ next ∈ others, ∀ column ∈ next.2.columns,
      column.name ∈ inputSchema.map ColumnInfo.mColName) :
    ∃ mapped, mapColumns.mapTail (columnMap inputSchema)
        (others.map fun next => (next.1.text, next.2.ast)) = some mapped ∧
      MappedOperand.generate.generateTail mapped =
        others.flatMap (connectedCode inputSchema) := by
  induction others with
  | nil => exact ⟨[], rfl, rfl⟩
  | cons next others induction =>
      obtain ⟨here, later⟩ := List.forall_mem_cons.mp known
      obtain ⟨operand, found, code⟩ := Comparison.generates distinct here
      obtain ⟨tail, mapped, codes⟩ := induction later
      refine ⟨(next.1.text, operand) :: tail, ?_, ?_⟩
      · simp only [List.map_cons, mapColumns.mapTail, found, mapped]
        rfl
      · rw [MappedOperand.generate.generateTail, code, codes, List.flatMap_cons,
          connectedCode, behind]

/-- The comparisons connected with `and` stand side by side. -/
theorem flatMap_connectedCode (others : List (Connective × Comparison)) :
    others.flatMap (connectedCode inputSchema) =
      (groups others).1.flatMap (behind inputSchema ['&', '&']) ++
        (groups others).2.flatMap fun next =>
          ' ' :: '|' :: '|' :: ' ' :: next.code inputSchema := by
  induction others with
  | nil => rfl
  | cons next others induction =>
      obtain ⟨connective, comparison⟩ := next
      rw [List.flatMap_cons, induction]
      cases connective with
      | and =>
          simp only [groups, List.flatMap_cons, List.append_assoc]
          rfl
      | or =>
          simp only [groups, List.flatMap_cons, List.flatMap_nil, List.nil_append,
            Conjunction.code, connectedCode, behind, List.append_assoc, List.cons_append]
          rfl

theorem generateWhereExpression_eq (distinct : (inputSchema.map ColumnInfo.mColName).Nodup)
    {condition : Condition}
    (known : ∀ column ∈ condition.columns,
      column.name ∈ inputSchema.map ColumnInfo.mColName) :
    (modifyWhereExpression inputSchema condition.ast).map generateWhereExpression =
      some (condition.code inputSchema) := by
  have among {comparison : Comparison}
      (member : comparison ∈ condition.first :: condition.others.map Prod.snd) :
      ∀ column ∈ comparison.columns, column.name ∈ inputSchema.map ColumnInfo.mColName :=
    fun column inside => known column (List.mem_flatMap.mpr ⟨comparison, member, inside⟩)
  obtain ⟨head, found, code⟩ := Comparison.generates distinct (among List.mem_cons_self)
  obtain ⟨tail, mapped, codes⟩ := mapTail_connected distinct fun next member =>
    among (List.mem_cons_of_mem _ (List.mem_map_of_mem member))
  have modified : modifyWhereExpression inputSchema condition.ast = some ⟨head, tail⟩ := by
    simp only [modifyWhereExpression, Condition.ast, found, mapped]
    rfl
  rw [modified, Option.map_some, generateWhereExpression, code, codes, flatMap_connectedCode,
    Condition.code, Conjunction.code, List.append_assoc]

end

/-! ### Reading the text -/

/-- The head of the digits of a number other than zero. -/
theorem toDigits_head (number : Nat) :
    ∃ digit digits, Nat.toDigits 10 number = digit :: digits ∧ digit.isDigit ∧
      (0 < number → digit ≠ '0') := by
  induction number using Nat.strongRecOn with
  | ind number induction =>
      by_cases small : number < 10
      · refine ⟨number.digitChar, [], Nat.toDigits_of_lt_base small, ?_, ?_⟩
        · apply isDigit_of_mem_toDigits number
          rw [Nat.toDigits_of_lt_base small]
          exact List.mem_cons_self
        · have leading : ∀ digit < 10, 0 < digit → Nat.digitChar digit ≠ '0' := by decide
          exact leading number small
      · have large : 10 ≤ number := Nat.le_of_not_lt small
        obtain ⟨digit, digits, split, decimal, leading⟩ :=
          induction (number / 10) (Nat.div_lt_self (by omega) (by decide))
        refine ⟨digit, digits ++ [(number % 10).digitChar], ?_, decimal, ?_⟩
        · rw [Nat.toDigits_of_base_le (by decide) large, split, List.cons_append]
        · intro _
          exact leading (Nat.div_pos large (by decide))

theorem reads_decimal (number : Nat) :
    Reads Cpp.decimal (Nat.toDigits 10 number) number (Stops Char.isDigit) := by
  obtain ⟨digit, digits, split, decimal, leading⟩ := toDigits_head number
  have digit_of_mem : ∀ c ∈ digits, c.isDigit := by
    intro c member
    apply isDigit_of_mem_toDigits number
    rw [split]
    exact List.mem_cons_of_mem _ member
  have value : Nat.ofDigitChars 10 (digit :: digits) 0 = number := by
    rw [← split]
    exact Nat.ofDigitChars_toDigits (by decide) (by decide)
  by_cases zero : number = 0
  · subst zero
    intro rest _
    rfl
  · apply Reads.choice_left
    rw [split]
    have nonzero := leading (Nat.pos_of_ne_zero zero)
    have first : Reads (token fun c => c.isDigit && c ≠ '0') [digit] digit Anything :=
      reads_token (by simp [decimal, nonzero])
    have whole := first.seq (reads_tokens digit_of_mem) fun _ _ => trivial
    have read := whole.map (f := fun digits => Nat.ofDigitChars 10 (digits.1 :: digits.2) 0)
    rw [value] at read
    exact read

/-- Another word begins here. -/
theorem fails_lit {blanks : Text} (empty : Blanks blanks) {initial first : Char}
    (starts : ¬ space initial) (different : first ≠ initial) (word text : Text)
    (follows : Text → Prop) :
    Fails (lit (first :: word)) (blanks ++ initial :: text) follows := by
  apply Fails.skip empty starts
  apply fails_literal
  intro rest _ same
  exact different (List.cons_prefix_cons.mp same).1

theorem reads_digits {blanks : Text} (empty : Blanks blanks) (number : Nat) :
    Reads Cpp.primary (blanks ++ Nat.toDigits 10 number) (.literal number)
      (Stops Char.isDigit) := by
  obtain ⟨digit, digits, split, decimal, _⟩ := toDigits_head number
  have starts : ¬ space digit := not_space_of_isLetter (isLetter_of_isDigit decimal)
  have different : 'g' ≠ digit := by
    intro same
    rw [← same] at decimal
    cases decimal
  have read := reads_decimal number
  rw [split] at read ⊢
  apply Reads.choice_right
  · exact (fails_lit empty starts different _ _ _).seq_left.map
  · exact (Reads.skip empty starts read).map

theorem reads_get {blanks : Text} (empty : Blanks blanks) (number : Nat) :
    Reads Cpp.primary
      (blanks ++ (['g', 'e', 't', '<'] ++ (Nat.toDigits 10 number ++ ['>', '(', 't', 'p', ')'])))
      (.get number) Anything := by
  have letter : ¬ space 'g' := by decide
  have word := reads_lit empty letter ['e', 't', '<']
  have number := (reads_decimal number).seq (reads_literal ['>', '(', 't', 'p', ')'])
    fun _ _ => stops_cons (by decide) _
  rw [← List.append_assoc]
  exact Reads.choice_left (word.seq number fun _ _ => trivial).map

/-! The expressions that the parts of a condition become. -/

def Primary.expr (inputSchema : List ColumnInfo) : Primary → Cpp.Expr
  | .column identifier => .get (position inputSchema identifier)
  | .literal number =>
      if number.value < 0 then .minus (.literal number.value.natAbs)
      else .literal number.value.natAbs

def Comparison.expr (inputSchema : List ColumnInfo) (comparison : Comparison) : Cpp.Expr :=
  .compare comparison.comparator (comparison.left.expr inputSchema)
    (comparison.right.expr inputSchema)

def Conjunction.expr (inputSchema : List ColumnInfo) (conjunction : Conjunction) : Cpp.Expr :=
  conjunction.others.foldl (fun left next => .and left (next.expr inputSchema))
    (conjunction.first.expr inputSchema)

def Condition.expr (inputSchema : List ColumnInfo) (condition : Condition) : Cpp.Expr :=
  (groups condition.others).2.foldl (fun left next => .or left (next.expr inputSchema))
    (Conjunction.expr inputSchema ⟨condition.first, (groups condition.others).1⟩)

section

variable {inputSchema : List ColumnInfo}

theorem reads_unary (inputSchema : List ColumnInfo) {blanks : Text} (empty : Blanks blanks) (primary : Primary) :
    Reads Cpp.unary (blanks ++ primary.code inputSchema) (primary.expr inputSchema)
      (Stops Char.isDigit) := by
  have minus : ¬ space '-' := by decide
  cases primary with
  | column identifier =>
      have letter : ¬ space 'g' := by decide
      have read := reads_get empty (position inputSchema identifier)
      rw [Primary.code, List.append_assoc]
      apply Reads.choice_right
      · exact (fails_lit empty letter (by decide) _ _ _).seq_left.map
      · exact read.weaken fun _ _ => trivial
  | literal number =>
      rw [Primary.code, Primary.expr, printInt]
      by_cases negative : number.value < 0
      · rw [if_pos negative, if_pos negative]
        have sign := reads_lit empty minus []
        have whole := sign.seq (reads_digits blanks_nil number.value.natAbs) fun _ _ => trivial
        rw [List.nil_append, List.append_assoc] at whole
        exact Reads.choice_left whole.map
      · rw [if_neg negative, if_neg negative]
        obtain ⟨digit, digits, split, decimal, _⟩ := toDigits_head number.value.natAbs
        have different : '-' ≠ digit := by
          intro same
          rw [← same] at decimal
          cases decimal
        have read := reads_digits empty number.value.natAbs
        rw [split] at read ⊢
        apply Reads.choice_right
        · exact (fails_lit empty (not_space_of_isLetter (isLetter_of_isDigit decimal))
            different _ _ _).seq_left.map
        · exact read

/-! Every level of precedence reads its operands and stops in front of other operators. -/

section

variable {Operator : Type} {combine : Operator → Cpp.Expr → Cpp.Expr → Cpp.Expr}
  {operator : PEG.Parser Char Operator} {operand : PEG.Parser Char Cpp.Expr}
  {text : Text} {first : Cpp.Expr} {between follows : Text → Prop}

theorem reads_leftAssociative {entries : List (Text × Operator × Cpp.Expr)}
    (reads : Reads operand text first between)
    (each : ∀ entry ∈ entries, Reads (seq operator operand) entry.1 entry.2 between)
    (consuming : ∀ entry ∈ entries, entry.1 ≠ [])
    (adjacent : ∀ entry ∈ entries, ∀ rest, between (entry.1 ++ rest))
    (stops : ∀ rest, follows rest → between rest)
    (ends : ∀ rest, follows rest → seq operator operand rest = .failure) :
    Reads (Cpp.leftAssociative combine operator operand) (text ++ entries.flatMap Prod.fst)
      (entries.foldl (fun left entry => combine entry.2.1 left entry.2.2) first) follows := by
  have rounds := Reads.many each consuming adjacent stops ends
  have whole := reads.seq rounds (by
    intro rest finished
    cases entries with
    | nil => exact stops rest finished
    | cons entry entries =>
        rw [List.flatMap_cons, List.append_assoc]
        exact adjacent entry List.mem_cons_self _)
  have read := whole.map (f := fun chain =>
    chain.2.foldl (fun left next => combine next.1 left next.2) chain.1)
  rw [List.foldl_map] at read
  exact read

/-- A single operand. -/
theorem reads_operand (reads : Reads operand text first between)
    (stops : ∀ rest, follows rest → between rest)
    (ends : ∀ rest, follows rest → seq operator operand rest = .failure) :
    Reads (Cpp.leftAssociative combine operator operand) text first follows := by
  have read : Reads (Cpp.leftAssociative combine operator operand)
      (text ++ ([] : List (Text × Operator × Cpp.Expr)).flatMap Prod.fst) first follows :=
    reads_leftAssociative reads (List.forall_mem_nil _) (List.forall_mem_nil _)
      (List.forall_mem_nil _) stops ends
  rw [List.flatMap_nil, List.append_nil] at read
  exact read

/-- Two operands. -/
theorem reads_operands {next : Text} {chosen : Operator} {second : Cpp.Expr}
    (reads : Reads operand text first between)
    (operation : Reads (seq operator operand) next (chosen, second) between)
    (consuming : next ≠ []) (adjacent : ∀ rest, between (next ++ rest))
    (stops : ∀ rest, follows rest → between rest)
    (ends : ∀ rest, follows rest → seq operator operand rest = .failure) :
    Reads (Cpp.leftAssociative combine operator operand) (text ++ next)
      (combine chosen first second) follows := by
  have read : Reads (Cpp.leftAssociative combine operator operand)
      (text ++ [(next, chosen, second)].flatMap Prod.fst) (combine chosen first second)
      follows :=
    reads_leftAssociative reads (List.forall_mem_singleton.mpr operation)
      (List.forall_mem_singleton.mpr consuming) (List.forall_mem_singleton.mpr adjacent)
      stops ends
  rw [List.flatMap_singleton] at read
  exact read

end

def EndsRelational (rest : Text) : Prop :=
  Stops Char.isDigit rest ∧ seq Cpp.relationalOperator Cpp.unary rest = .failure

def EndsEquality (rest : Text) : Prop :=
  EndsRelational rest ∧ seq Cpp.equalityOperator Cpp.relational rest = .failure

def EndsConjunction (rest : Text) : Prop :=
  EndsEquality rest ∧ seq (lit ['&', '&']) Cpp.equality rest = .failure

theorem endsConjunction_nil : EndsConjunction [] :=
  ⟨⟨⟨stops_nil _, rfl⟩, rfl⟩, rfl⟩

theorem endsConjunction_or (rest : Text) : EndsConjunction (' ' :: '|' :: '|' :: rest) :=
  ⟨⟨⟨stops_cons (by decide) _, rfl⟩, rfl⟩, rfl⟩

theorem endsEquality_and (rest : Text) : EndsEquality (' ' :: '&' :: '&' :: rest) :=
  ⟨⟨stops_cons (by decide) _, rfl⟩, rfl⟩

/-- An operator and the blank behind it. -/
def Blank (rest : Text) : Prop := ∃ tail, rest = ' ' :: tail

/-- The comparators of the two levels. -/
theorem reads_comparator (comparator : Comparator) :
    (Reads Cpp.equalityOperator (' ' :: cppOperator comparator.text) comparator Blank ∧
        ∀ rest, EndsRelational (' ' :: cppOperator comparator.text ++ rest)) ∨
      Reads Cpp.relationalOperator (' ' :: cppOperator comparator.text) comparator Blank := by
  cases comparator with
  | equal =>
      refine Or.inl ⟨?_, fun rest => ⟨stops_cons (by decide) _, rfl⟩⟩
      intro rest blank
      obtain ⟨tail, rfl⟩ := blank
      rfl
  | unequal =>
      refine Or.inl ⟨?_, fun rest => ⟨stops_cons (by decide) _, rfl⟩⟩
      intro rest blank
      obtain ⟨tail, rfl⟩ := blank
      rfl
  | _ =>
      right
      intro rest blank
      obtain ⟨tail, rfl⟩ := blank
      rfl

theorem Comparison.reads (inputSchema : List ColumnInfo) {blanks : Text}
    (empty : Blanks blanks) (comparison : Comparison) :
    Reads Cpp.equality (blanks ++ comparison.code inputSchema) (comparison.expr inputSchema)
      EndsEquality := by
  have left := reads_unary inputSchema empty comparison.left
  have right := reads_unary inputSchema blanks_one comparison.right
  have split : blanks ++ comparison.code inputSchema =
      (blanks ++ comparison.left.code inputSchema) ++
        ((' ' :: cppOperator comparison.comparator.text) ++
          ([' '] ++ comparison.right.code inputSchema)) := by
    simp only [Comparison.code, List.append_assoc, List.cons_append, List.nil_append]
  rw [split]
  rcases reads_comparator comparison.comparator with ⟨operator, ends⟩ | operator
  · have single {text : Text} {expr : Cpp.Expr}
        (read : Reads Cpp.unary text expr (Stops Char.isDigit)) :
        Reads Cpp.relational text expr EndsRelational :=
      reads_operand read (fun _ finished => finished.1) fun _ finished => finished.2
    have operation := operator.seq (single right) fun rest _ => ⟨_, rfl⟩
    apply reads_operands (single left) operation (List.cons_ne_nil _ _)
    · intro rest
      rw [List.append_assoc]
      exact ends _
    · intro rest finished
      exact finished.1
    · intro rest finished
      exact finished.2
  · have operation := operator.seq right fun rest _ => ⟨_, rfl⟩
    have whole : Reads Cpp.relational _ (comparison.expr inputSchema) EndsRelational :=
      reads_operands left operation (List.cons_ne_nil _ _)
        (fun _ => stops_cons (by decide) _) (fun _ finished => finished.1)
        fun _ finished => finished.2
    exact reads_operand whole (fun _ finished => finished.1) fun _ finished => finished.2

/-- Operands that are connected with the same word. -/
theorem reads_connected {Item : Type} {operand : PEG.Parser Char Cpp.Expr}
    {combine : Cpp.Expr → Cpp.Expr → Cpp.Expr} {text : Text} {first : Cpp.Expr}
    {between follows : Text → Prop} {initial : Char} {letters : Text} {items : List Item}
    {code : Item → Text} {expr : Item → Cpp.Expr} (starts : ¬ space initial)
    (reads : Reads operand text first between)
    (each : ∀ item, Reads operand ([' '] ++ code item) (expr item) between)
    (adjacent : ∀ rest, between (' ' :: initial :: letters ++ rest))
    (stops : ∀ rest, follows rest → between rest)
    (ends : ∀ rest, follows rest → seq (lit (initial :: letters)) operand rest = .failure) :
    Reads (Cpp.leftAssociative (fun _ => combine) (lit (initial :: letters)) operand)
      (text ++ items.flatMap fun item => ' ' :: initial :: letters ++ ' ' :: code item)
      (items.foldl (fun left item => combine left (expr item)) first) follows := by
  let entries : List (Text × Text × Cpp.Expr) := items.map fun item =>
    (' ' :: initial :: letters ++ ' ' :: code item, initial :: letters, expr item)
  have word := reads_lit blanks_one starts letters
  have operations : ∀ entry ∈ entries,
      Reads (seq (lit (initial :: letters)) operand) entry.1 entry.2 between := by
    intro entry member
    obtain ⟨item, _, rfl⟩ := List.mem_map.mp member
    exact word.seq (each item) fun _ _ => trivial
  have consuming : ∀ entry ∈ entries, entry.1 ≠ [] := by
    intro entry member
    obtain ⟨item, _, rfl⟩ := List.mem_map.mp member
    exact List.cons_ne_nil _ _
  have apart : ∀ entry ∈ entries, ∀ rest, between (entry.1 ++ rest) := by
    intro entry member rest
    obtain ⟨item, _, rfl⟩ := List.mem_map.mp member
    rw [List.append_assoc]
    exact adjacent _
  have read : Reads (Cpp.leftAssociative (fun _ => combine) (lit (initial :: letters)) operand)
      (text ++ entries.flatMap Prod.fst)
      (entries.foldl (fun left entry => combine left entry.2.2) first) follows :=
    reads_leftAssociative reads operations consuming apart stops ends
  rw [List.flatMap_map, List.foldl_map] at read
  exact read

theorem Conjunction.reads (inputSchema : List ColumnInfo) {blanks : Text}
    (empty : Blanks blanks) (conjunction : Conjunction) :
    Reads Cpp.conjunction (blanks ++ conjunction.code inputSchema)
      (conjunction.expr inputSchema) EndsConjunction := by
  have first := Comparison.reads inputSchema empty conjunction.first
  have read : Reads Cpp.conjunction
      (blanks ++ conjunction.first.code inputSchema ++
        conjunction.others.flatMap (behind inputSchema ['&', '&']))
      (conjunction.expr inputSchema) EndsConjunction :=
    reads_connected (by decide) first (Comparison.reads inputSchema blanks_one)
      endsEquality_and (fun _ finished => finished.1) fun _ finished => finished.2
  rw [List.append_assoc] at read
  exact read

theorem Condition.reads (inputSchema : List ColumnInfo) (condition : Condition) :
    Reads Cpp.disjunction (condition.code inputSchema) (condition.expr inputSchema) AtEnd := by
  have first := Conjunction.reads inputSchema blanks_nil
    ⟨condition.first, (groups condition.others).1⟩
  have finished {rest : Text} (atEnd : AtEnd rest) : EndsConjunction rest := by
    rw [atEnd]
    exact endsConjunction_nil
  have ends {rest : Text} (atEnd : AtEnd rest) :
      seq (lit ['|', '|']) Cpp.conjunction rest = .failure := by
    rw [atEnd]
    rfl
  have read : Reads Cpp.disjunction
      (Conjunction.code inputSchema ⟨condition.first, (groups condition.others).1⟩ ++
        (groups condition.others).2.flatMap fun next =>
          ' ' :: '|' :: ['|'] ++ ' ' :: next.code inputSchema)
      (condition.expr inputSchema) AtEnd :=
    reads_connected (by decide) first (Conjunction.reads inputSchema blanks_one)
      endsConjunction_or (fun _ => finished) fun _ => ends
  exact read

/-- The text is read as the expression. -/
theorem read_code (inputSchema : List ColumnInfo) (condition : Condition) :
    Cpp.read (condition.code inputSchema) = some (condition.expr inputSchema) := by
  have read := Condition.reads inputSchema condition [] rfl
  rw [List.append_nil] at read
  unfold Cpp.read
  rw [read]
  rfl

end

/-! ### Evaluation -/

section

variable {inputSchema : List ColumnInfo} {tp : List (Cpp.Value Double)}

/-- What an operand can be. -/
def InRange : Cpp.Value Double → Prop
  | .integer .int value => -2147483648 ≤ value ∧ value < 2147483648
  | .integer .unsigned value => 0 ≤ value ∧ value < 4294967296
  | .bool _ => False
  | _ => True

theorem Fits.inRange {column : ColumnInfo} {value : Cpp.Value Double}
    (fits : Fits column value) : InRange value := by
  obtain ⟨name, type⟩ := column
  cases value with
  | integer integerType number =>
      cases integerType with
      | int =>
          cases type with
          | Int_Type => exact fits
          | _ => exact absurd fits not_false
      | unsigned =>
          cases type with
          | UInt_Type => exact fits
          | _ => exact absurd fits not_false
      | long => trivial
  | bool truth => cases type <;> exact absurd fits not_false
  | _ => trivial

theorem Primary.inRange (typed : List.Forall₂ Fits inputSchema tp) {primary : Primary}
    {value : Cpp.Value Double} (holds : primary.value inputSchema tp = some value) :
    InRange value := by
  cases primary with
  | column identifier =>
      obtain ⟨inside, same⟩ := List.getElem?_eq_some_iff.mp holds
      have column := typed.get (i := position inputSchema identifier)
        (typed.length_eq ▸ inside) inside
      rw [List.get_eq_getElem, List.get_eq_getElem, same] at column
      exact column.inRange
  | literal number =>
      cases holds
      split
      · trivial
      · exact ⟨number.lower, number.upper⟩

variable [Cpp.FloatingPoint Double]

theorem Primary.expr_value (primary : Primary) :
    (primary.expr inputSchema).value tp = primary.value inputSchema tp := by
  cases primary with
  | column identifier => rfl
  | literal number =>
      have lower := number.lower
      have upper := number.upper
      rw [Primary.expr, Primary.value]
      by_cases negative : number.value < 0
      · have value : -(number.value.natAbs : Int) = number.value := by omega
        by_cases least : number.value = -2147483648
        · have type : Cpp.literalType number.value.natAbs = .long := by
            rw [least]
            rfl
          rw [if_pos negative, if_pos least]
          simp only [Cpp.Expr.value, type, Option.bind_eq_bind, Option.bind_some,
            Cpp.Value.promote, Cpp.IntegerType.convert, value]
          rfl
        · have type : Cpp.literalType number.value.natAbs = .int := if_pos (by omega)
          rw [if_pos negative, if_neg least]
          simp only [Cpp.Expr.value, type, Option.bind_eq_bind, Option.bind_some,
            Cpp.Value.promote, Cpp.IntegerType.convert, value]
          rfl
      · have value : (number.value.natAbs : Int) = number.value := by omega
        have type : Cpp.literalType number.value.natAbs = .int := if_pos (by omega)
        have greater : number.value ≠ -2147483648 := by omega
        rw [if_neg negative, if_neg greater]
        simp only [Cpp.Expr.value, type, value]

/-- The usual arithmetic conversions only wrap. -/
theorem compare_usualConversions {left right : Cpp.Value Double} (leftRange : InRange left)
    (rightRange : InRange right) (operator : Comparator) :
    Cpp.Value.compare operator (Cpp.usualConversions left.promote right.promote).1
        (Cpp.usualConversions left.promote right.promote).2 =
      compareWrapped operator left right := by
  cases left with
  | integer leftType leftValue =>
      cases right with
      | integer rightType rightValue =>
          cases leftType <;> cases rightType <;>
            simp_all [Cpp.Value.promote, Cpp.usualConversions, Cpp.IntegerType.common,
              Cpp.IntegerType.convert, compareWrapped, wrapped, InRange, Int.emod_eq_of_lt,
              Cpp.Value.compare]
      | bool truth => exact absurd rightRange not_false
      | _ => cases leftType <;> rfl
  | bool truth => exact absurd leftRange not_false
  | _ =>
      cases right with
      | integer rightType rightValue => cases rightType <;> rfl
      | bool truth => exact absurd rightRange not_false
      | _ => rfl

/-- The expression has this truth value. -/
def Means (tp : List (Cpp.Value Double)) (expr : Cpp.Expr) (meaning : Option Bool) : Prop :=
  expr.value tp = meaning.map .bool

theorem Means.and {left right : Cpp.Expr} {first second : Option Bool}
    (leftMeans : Means tp left first) (rightMeans : Means tp right second) :
    Means tp (.and left right) (both first second) := by
  rw [Means, Cpp.Expr.value, leftMeans, rightMeans]
  cases first <;> cases second <;> rfl

theorem Means.or {left right : Cpp.Expr} {first second : Option Bool}
    (leftMeans : Means tp left first) (rightMeans : Means tp right second) :
    Means tp (.or left right) (either first second) := by
  rw [Means, Cpp.Expr.value, leftMeans, rightMeans]
  cases first <;> cases second <;> rfl

/-- Operands that are combined from left to right. -/
theorem means_foldl {Item : Type} {combine : Cpp.Expr → Cpp.Expr → Cpp.Expr}
    {connect : Option Bool → Option Bool → Option Bool}
    (combined : ∀ left right first second, Means tp left first → Means tp right second →
      Means tp (combine left right) (connect first second))
    {expr : Item → Cpp.Expr} {meaning : Item → Option Bool}
    (each : ∀ item, Means tp (expr item) (meaning item)) (items : List Item)
    {first : Cpp.Expr} {start : Option Bool} (means : Means tp first start) :
    Means tp (items.foldl (fun left item => combine left (expr item)) first)
      (items.foldl (fun left item => connect left (meaning item)) start) := by
  induction items generalizing first start with
  | nil => exact means
  | cons item items induction => exact induction (combined _ _ _ _ means (each item))

theorem Comparison.means (typed : List.Forall₂ Fits inputSchema tp) (comparison : Comparison) :
    Means tp (comparison.expr inputSchema)
      (comparison.meaning compareWrapped inputSchema tp) := by
  rw [Means, Comparison.expr, Cpp.Expr.value, Primary.expr_value, Primary.expr_value,
    Comparison.meaning]
  cases left : comparison.left.value inputSchema tp with
  | none => rfl
  | some first =>
      cases right : comparison.right.value inputSchema tp with
      | none => rfl
      | some second =>
          have converted := compare_usualConversions (Primary.inRange typed left)
            (Primary.inRange typed right) comparison.comparator
          simp only [Option.bind_eq_bind, Option.bind_some, converted]
          cases compareWrapped comparison.comparator first second <;> rfl

theorem Conjunction.means (typed : List.Forall₂ Fits inputSchema tp)
    (conjunction : Conjunction) :
    Means tp (conjunction.expr inputSchema)
      (conjunction.meaning compareWrapped inputSchema tp) :=
  means_foldl (fun _ _ _ _ => Means.and) (Comparison.means typed) conjunction.others
    (Comparison.means typed conjunction.first)

theorem Condition.means (typed : List.Forall₂ Fits inputSchema tp) (condition : Condition) :
    Means tp (condition.expr inputSchema)
      (condition.meaning compareWrapped inputSchema tp) :=
  means_foldl (fun _ _ _ _ => Means.or) (Conjunction.means typed) (groups condition.others).2
    (Conjunction.means typed ⟨condition.first, (groups condition.others).1⟩)

/-- What the query compiler makes of a condition: the predicate that the generated text
is. -/
def generatedPredicate (inputSchema : List ColumnInfo) (condition : Condition)
    (tp : List (Cpp.Value Double)) : Option Bool := do
  let mapped ← modifyWhereExpression inputSchema condition.ast
  Cpp.predicate (generateWhereExpression mapped) tp

/-- The generated text has the structure of the condition, and its comparisons wrap. -/
theorem generatedPredicate_eq (distinct : (inputSchema.map ColumnInfo.mColName).Nodup)
    {condition : Condition}
    (known : ∀ column ∈ condition.columns,
      column.name ∈ inputSchema.map ColumnInfo.mColName)
    (typed : List.Forall₂ Fits inputSchema tp) :
    generatedPredicate inputSchema condition tp =
      condition.meaning compareWrapped inputSchema tp := by
  obtain ⟨mapped, modified, generated⟩ :=
    Option.map_eq_some_iff.mp (generateWhereExpression_eq distinct known)
  have means := Condition.means typed condition
  have read := read_code inputSchema condition
  rw [Means] at means
  simp only [generatedPredicate, modified, Option.bind_eq_bind, Option.bind_some,
    Cpp.predicate, generated, read, means]
  cases condition.meaning compareWrapped inputSchema tp <;> rfl

/-! ### Comparisons of unsigned numbers with negative ones -/

def Mixed : Cpp.Value Double → Cpp.Value Double → Prop
  | .integer .unsigned _, .integer .int value => value < 0
  | .integer .int value, .integer .unsigned _ => value < 0
  | _, _ => False

/-- Other comparisons do not wrap. -/
theorem compareWrapped_eq {left right : Cpp.Value Double} (leftRange : InRange left)
    (rightRange : InRange right) (unmixed : ¬ Mixed left right) (operator : Comparator) :
    compareWrapped operator left right = Cpp.Value.compare operator left right := by
  have small {value : Int} (range : -2147483648 ≤ value ∧ value < 2147483648)
      (nonnegative : ¬ value < 0) : value % 4294967296 = value :=
    Int.emod_eq_of_lt (by omega) (by omega)
  cases left with
  | integer leftType leftValue =>
      cases right with
      | integer rightType rightValue =>
          cases leftType with
          | int =>
              cases rightType with
              | unsigned =>
                  simp only [compareWrapped, wrapped, small leftRange unmixed]
                  rfl
              | _ => rfl
          | unsigned =>
              cases rightType with
              | int =>
                  simp only [compareWrapped, wrapped, small rightRange unmixed]
                  rfl
              | _ => rfl
          | long => cases rightType <;> rfl
      | _ => cases leftType <;> rfl
  | _ =>
      cases right with
      | integer rightType rightValue => cases rightType <;> rfl
      | _ => rfl

/-- In no comparison of the condition an unsigned number meets a negative one. -/
def Unmixed (inputSchema : List ColumnInfo) (tp : List (Cpp.Value Double))
    (condition : Condition) : Prop :=
  ∀ comparison ∈ condition.first :: condition.others.map Prod.snd, ∀ left right,
    comparison.left.value inputSchema tp = some left →
      comparison.right.value inputSchema tp = some right → ¬ Mixed left right

theorem Comparison.meaning_unmixed (typed : List.Forall₂ Fits inputSchema tp)
    {comparison : Comparison}
    (unmixed : ∀ left right, comparison.left.value inputSchema tp = some left →
      comparison.right.value inputSchema tp = some right → ¬ Mixed left right) :
    comparison.meaning compareWrapped inputSchema tp =
      comparison.meaning Cpp.Value.compare inputSchema tp := by
  rw [Comparison.meaning, Comparison.meaning]
  cases left : comparison.left.value inputSchema tp with
  | none => rfl
  | some first =>
      cases right : comparison.right.value inputSchema tp with
      | none => rfl
      | some second =>
          exact compareWrapped_eq (Primary.inRange typed left) (Primary.inRange typed right)
            (unmixed first second left right) comparison.comparator

/-- The groups hold the comparisons of the condition. -/
theorem mem_groups (others : List (Connective × Comparison)) :
    (∀ comparison ∈ (groups others).1, comparison ∈ others.map Prod.snd) ∧
      ∀ conjunction ∈ (groups others).2,
        ∀ comparison ∈ conjunction.first :: conjunction.others,
          comparison ∈ others.map Prod.snd := by
  induction others with
  | nil => exact ⟨List.forall_mem_nil _, List.forall_mem_nil _⟩
  | cons next others induction =>
      obtain ⟨connective, comparison⟩ := next
      obtain ⟨first, later⟩ := induction
      rw [List.map_cons]
      cases connective with
      | and =>
          constructor
          · intro other member
            rcases List.mem_cons.mp member with rfl | inside
            · exact List.mem_cons_self
            · exact List.mem_cons_of_mem _ (first other inside)
          · intro conjunction among other member
            exact List.mem_cons_of_mem _ (later conjunction among other member)
      | or =>
          constructor
          · exact List.forall_mem_nil _
          · intro conjunction among other member
            rcases List.mem_cons.mp among with rfl | inside
            · rcases List.mem_cons.mp member with rfl | behind
              · exact List.mem_cons_self
              · exact List.mem_cons_of_mem _ (first other behind)
            · exact List.mem_cons_of_mem _ (later conjunction inside other member)

theorem foldl_congr {Item : Type} {connect : Option Bool → Option Bool → Option Bool}
    {meaning other : Item → Option Bool} {items : List Item}
    (same : ∀ item ∈ items, meaning item = other item) (start : Option Bool) :
    items.foldl (fun left item => connect left (meaning item)) start =
      items.foldl (fun left item => connect left (other item)) start := by
  induction items generalizing start with
  | nil => rfl
  | cons item items induction =>
      obtain ⟨here, later⟩ := List.forall_mem_cons.mp same
      rw [List.foldl_cons, List.foldl_cons, here]
      exact induction later _

theorem Condition.meaning_unmixed (typed : List.Forall₂ Fits inputSchema tp)
    {condition : Condition} (unmixed : Unmixed inputSchema tp condition) :
    condition.meaning compareWrapped inputSchema tp =
      condition.meaning Cpp.Value.compare inputSchema tp := by
  have each {comparison : Comparison}
      (member : comparison ∈ condition.first :: condition.others.map Prod.snd) :
      comparison.meaning compareWrapped inputSchema tp =
        comparison.meaning Cpp.Value.compare inputSchema tp :=
    Comparison.meaning_unmixed typed (unmixed comparison member)
  have conjunction {conjunction : Conjunction}
      (among : ∀ comparison ∈ conjunction.first :: conjunction.others,
        comparison ∈ condition.first :: condition.others.map Prod.snd) :
      conjunction.meaning compareWrapped inputSchema tp =
        conjunction.meaning Cpp.Value.compare inputSchema tp := by
    obtain ⟨first, others⟩ := List.forall_mem_cons.mp among
    rw [Conjunction.meaning, Conjunction.meaning, each first]
    exact foldl_congr (fun next member => each (others next member)) _
  obtain ⟨early, late⟩ := mem_groups condition.others
  have head : ∀ comparison ∈ condition.first :: (groups condition.others).1,
      comparison ∈ condition.first :: condition.others.map Prod.snd := by
    intro comparison member
    rcases List.mem_cons.mp member with rfl | inside
    · exact List.mem_cons_self
    · exact List.mem_cons_of_mem _ (early comparison inside)
  rw [Condition.meaning, Condition.meaning, conjunction head]
  apply foldl_congr
  intro next member
  exact conjunction fun comparison inside =>
    List.mem_cons_of_mem _ (late next member comparison inside)

/-- The generated code gives a condition its meaning just when nothing changes by taking an
`int` next to an unsigned number modulo `2 ^ 32`, and so it does where no unsigned number
is compared with a negative one. -/
theorem generatedWhere_preserves_iff
    (distinct : (inputSchema.map ColumnInfo.mColName).Nodup) {condition : Condition}
    (known : ∀ column ∈ condition.columns,
      column.name ∈ inputSchema.map ColumnInfo.mColName)
    (typed : List.Forall₂ Fits inputSchema tp) :
    (generatedPredicate inputSchema condition tp =
        condition.meaning Cpp.Value.compare inputSchema tp ↔
      condition.meaning compareWrapped inputSchema tp =
        condition.meaning Cpp.Value.compare inputSchema tp) ∧
      (Unmixed inputSchema tp condition → generatedPredicate inputSchema condition tp =
        condition.meaning Cpp.Value.compare inputSchema tp) := by
  rw [generatedPredicate_eq distinct known typed]
  exact ⟨Iff.rfl, Condition.meaning_unmixed typed⟩

end

/-- There are no columns of type `double` below. -/
instance : Cpp.FloatingPoint Unit := ⟨fun _ => (), fun _ _ _ => false⟩

theorem no_more_letters : ∀ c ∈ ([] : Text), isLetter c := List.forall_mem_nil _

def columnB : Identifier := ⟨'b', [], rfl, no_more_letters⟩

/-- The condition `a > b`. -/
def greaterCondition : Condition := ⟨⟨.column columnA, .greater, .column columnB⟩, []⟩

theorem generatedWhere_preserves_ints :
    (generatedPredicate [⟨['a'], .Int_Type⟩, ⟨['b'], .Int_Type⟩] greaterCondition
        [(.integer .int 0 : Cpp.Value Unit), .integer .int (-1)] =
      greaterCondition.meaning Cpp.Value.compare [⟨['a'], .Int_Type⟩, ⟨['b'], .Int_Type⟩]
        [(.integer .int 0 : Cpp.Value Unit), .integer .int (-1)] ↔
      greaterCondition.meaning compareWrapped [⟨['a'], .Int_Type⟩, ⟨['b'], .Int_Type⟩]
          [(.integer .int 0 : Cpp.Value Unit), .integer .int (-1)] =
        greaterCondition.meaning Cpp.Value.compare [⟨['a'], .Int_Type⟩, ⟨['b'], .Int_Type⟩]
          [(.integer .int 0 : Cpp.Value Unit), .integer .int (-1)]) ∧
      (Unmixed [⟨['a'], .Int_Type⟩, ⟨['b'], .Int_Type⟩]
          [(.integer .int 0 : Cpp.Value Unit), .integer .int (-1)] greaterCondition →
        generatedPredicate [⟨['a'], .Int_Type⟩, ⟨['b'], .Int_Type⟩] greaterCondition
            [(.integer .int 0 : Cpp.Value Unit), .integer .int (-1)] =
          greaterCondition.meaning Cpp.Value.compare [⟨['a'], .Int_Type⟩, ⟨['b'], .Int_Type⟩]
            [(.integer .int 0 : Cpp.Value Unit), .integer .int (-1)]) :=
  generatedWhere_preserves_iff (by decide) (by decide)
    (List.Forall₂.cons ⟨by decide, by decide⟩
      (List.Forall₂.cons ⟨by decide, by decide⟩ List.Forall₂.nil))

/-- In an unsigned column zero is not greater than `-1`. -/
theorem not_generatedWhere_preserves :
    ¬ ∀ (inputSchema : List ColumnInfo) (condition : Condition)
      (tp : List (Cpp.Value Unit)), (inputSchema.map ColumnInfo.mColName).Nodup →
        (∀ column ∈ condition.columns,
          column.name ∈ inputSchema.map ColumnInfo.mColName) →
        List.Forall₂ Fits inputSchema tp →
          generatedPredicate inputSchema condition tp =
            condition.meaning Cpp.Value.compare inputSchema tp := by
  intro every
  have preserved := every [⟨['a'], .UInt_Type⟩, ⟨['b'], .Int_Type⟩] greaterCondition
    [.integer .unsigned 0, .integer .int (-1)] (by decide) (by decide)
    (List.Forall₂.cons ⟨by decide, by decide⟩
      (List.Forall₂.cons ⟨by decide, by decide⟩ List.Forall₂.nil))
  cases preserved

end PipeFabric.SQL
