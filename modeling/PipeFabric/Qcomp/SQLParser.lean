import PipeFabric.Library.PEG

/-!
# The SQL parser

A query is printed by the operators `<<` and read by `SQLParser::parse` with a grammar of
Spirit Qi.  The parsers of the grammar skip white space in front of what they read, and
the attributes of the rules are put together to the query.  A result `none` stands for
an exception.
-/

namespace PipeFabric.SQL

/-- The characters of a statement, which are ASCII. -/
abbrev Text : Type := List Char

/-! ### Queries and how they are printed -/

/-- The `boost::variant` of `Nil`, `Literal`, `Column`, `RightAssocExpression` and
`Expression`.  The position of a column, which neither the grammar nor the operators `<<`
use, is left out. -/
inductive Operand where
  | nil
  | literal (value_ : Int)
  | column (columnName_ : Text)
  | rightAssoc (left_ : Operand)
  | expression (head_ : Operand) (tail_ : List (Text × Operand))

structure Expression where
  head_ : Operand
  tail_ : List (Text × Operand)

structure SQLQuery where
  columnList_ : List Text
  tableName_ : Text
  whereClause_ : Option Expression

/-- How an `int` is printed. -/
def printInt (value : Int) : Text :=
  if value < 0 then '-' :: Nat.toDigits 10 value.natAbs else Nat.toDigits 10 value.natAbs

/-- The operators `<<` for what a variant can hold. -/
def Operand.print : Operand → Text
  | .nil => []
  | .literal value_ => printInt value_
  | .column columnName_ => columnName_
  | .rightAssoc left_ => left_.print
  | .expression head_ tail_ => head_.print ++ printTail tail_
where
  printTail : List (Text × Operand) → Text
    | [] => []
    | (operator_, operand_) :: tail_ =>
        ' ' :: operator_ ++ ' ' :: operand_.print ++ printTail tail_

def Expression.print (expr : Expression) : Text :=
  expr.head_.print ++ Operand.print.printTail expr.tail_

/-- The loop of `operator<<(std::ostream&, const SelectClause&)`. -/
def printColumns : List Text → Text
  | [] => []
  | first :: others => first ++ others.flatMap fun column => ',' :: ' ' :: column

/-- `operator<<(std::ostream&, SQLQuery&)`.  What stands for an absent `WHERE` clause is
the choice of `boost::optional`. -/
def SQLQuery.print (q : SQLQuery) : Text :=
  ['S', 'E', 'L', 'E', 'C', 'T', ' '] ++ printColumns q.columnList_ ++
    [' ', 'F', 'R', 'O', 'M', ' '] ++ q.tableName_ ++ [' '] ++
      match q.whereClause_ with
      | none => ['-', '-']
      | some condition_ => [' ', 'W', 'H', 'E', 'R', 'E', ' '] ++ condition_.print

/-! ### The grammar -/

/-- `ascii::space`. -/
def space (c : Char) : Bool := c = ' ' || (9 ≤ c.toNat && c.toNat ≤ 13)

/-- `lit` and `string`. -/
def lit (text : Text) : PEG.Parser Char Text := PEG.skip space (PEG.literal text)

/-- `alnum | qi::char_('_')`. -/
def isLetter (c : Char) : Bool := c.isAlphanum || c = '_'

/-- The lexeme `alpha >> *(alnum | qi::char_('_'))`. -/
def identifier : PEG.Parser Char Text :=
  PEG.skip space (PEG.map (fun name => name.1 :: name.2)
    (PEG.seq (PEG.token Char.isAlpha) (PEG.many (PEG.token isLetter))))

/-- The digits of a number, with a sign or without.  A number that is no `int` is not
accepted. -/
def extract_int : PEG.Parser Char Int :=
  fun input =>
    let negative := input.head? = some '-'
    let unsigned := if negative ∨ input.head? = some '+' then input.tail else input
    let digits := unsigned.takeWhile Char.isDigit
    let absolute : Int := Nat.ofDigitChars 10 digits 0
    let value := if negative then -absolute else absolute
    if digits ≠ [] ∧ -2147483648 ≤ value ∧ value < 2147483648 then
      .success value (unsigned.dropWhile Char.isDigit)
    else .failure

def int_ : PEG.Parser Char Int := PEG.skip space extract_int

def column_list : PEG.Parser Char (List Text) :=
  PEG.map (fun columns => columns.1 :: columns.2)
    (PEG.seq identifier (PEG.many (PEG.map Prod.snd (PEG.seq (lit [',']) identifier))))

/-- The attribute of the rule is a string, which stays empty. -/
def star : PEG.Parser Char (List Text) := PEG.map (fun _ => [[]]) (lit ['*'])

def select_clause : PEG.Parser Char (List Text) :=
  PEG.map Prod.snd
    (PEG.seq (lit ['s', 'e', 'l', 'e', 'c', 't']) (PEG.choice column_list star))

def table_name : PEG.Parser Char Text := identifier

def from_clause : PEG.Parser Char Text :=
  PEG.map Prod.snd (PEG.seq (lit ['f', 'r', 'o', 'm']) table_name)

def literal : PEG.Parser Char Operand := PEG.map .literal int_

def column_name : PEG.Parser Char Operand := PEG.map .column identifier

def primary_expression : PEG.Parser Char Operand := PEG.choice column_name literal

def additive_expression : PEG.Parser Char Operand := PEG.map .rightAssoc primary_expression

/-- `string_(operator) > operand`. -/
def operation (operator_ : Text) (operand_ : PEG.Parser Char Operand) :
    PEG.Parser Char (Text × Operand) :=
  PEG.expect (lit operator_) operand_

/-- The alternatives of `relational_expression`. -/
def comparison : PEG.Parser Char (Text × Operand) :=
  PEG.choice (operation ['<', '='] additive_expression)
    (PEG.choice (operation ['<'] additive_expression)
      (PEG.choice (operation ['>', '='] additive_expression)
        (PEG.choice (operation ['>'] additive_expression)
          (PEG.choice (operation ['<', '>'] additive_expression)
            (operation ['='] additive_expression)))))

def relational_expression : PEG.Parser Char Operand :=
  PEG.map (fun expr => .expression expr.1 expr.2)
    (PEG.seq additive_expression (PEG.many comparison))

/-- The alternatives of `expression`. -/
def connection : PEG.Parser Char (Text × Operand) :=
  PEG.choice (operation ['a', 'n', 'd'] relational_expression)
    (operation ['o', 'r'] relational_expression)

def expression : PEG.Parser Char Expression :=
  PEG.map (fun expr => ⟨expr.1, expr.2⟩) (PEG.seq relational_expression (PEG.many connection))

def where_clause : PEG.Parser Char Expression :=
  PEG.map Prod.snd (PEG.seq (lit ['w', 'h', 'e', 'r', 'e']) expression)

def start : PEG.Parser Char SQLQuery :=
  PEG.map (fun query => ⟨query.1.1, query.1.2, query.2⟩)
    (PEG.seq (PEG.seq select_clause from_clause) (PEG.optional where_clause))

/-- `SQLParser::parse`.  `phrase_parse` skips the white space at the end. -/
def parse (stmt : Text) : Option SQLQuery :=
  match start stmt with
  | .success query rest => if rest.all space then some query else none
  | _ => none

end PipeFabric.SQL
