import PipeFabric.Qcomp.SQLParser

/-!
# Code for conditions

The query compiler turns the condition of a query into the text of a C++ expression.
`modifyWhereExpression` looks up the positions of the columns in the schema, and
`generateWhereExpression` writes the operands and operators down as they come, without
parentheses.
-/

namespace PipeFabric

namespace TableInfo

/-- `ColumnInfo::ColumnType`. -/
inductive ColumnType where
  | Void_Type
  | Int_Type
  | Double_Type
  | String_Type
  | UInt_Type
  deriving DecidableEq

structure ColumnInfo where
  mColName : SQL.Text
  mColType : ColumnType

end TableInfo

namespace SQL

/-- An operand after `MapColumnVisitor` has set the positions of the columns. -/
inductive MappedOperand where
  | nil
  | literal (value_ : Int)
  | column (columnName_ : Text) (columnPosition_ : Nat)
  | rightAssoc (left_ : MappedOperand)
  | expression (head_ : MappedOperand) (tail_ : List (Text × MappedOperand))

structure MappedExpression where
  head_ : MappedOperand
  tail_ : List (Text × MappedOperand)

/-- The map that `modifyWhereExpression` fills.  A later column of the same name replaces
an earlier one. -/
def columnMap (inputSchema : List TableInfo.ColumnInfo) (columnName_ : Text) : Option Nat :=
  inputSchema.zipIdx.foldl
    (fun position column => if column.1.mColName = columnName_ then some column.2 else position)
    none

/-- `MapColumnVisitor`.  The member function `at` throws an exception for a column that is
not in the schema. -/
def mapColumns (columnMap : Text → Option Nat) : Operand → Option MappedOperand
  | .nil => some .nil
  | .literal value_ => some (.literal value_)
  | .column columnName_ => (columnMap columnName_).map fun position =>
      .column columnName_ position
  | .rightAssoc left_ => (mapColumns columnMap left_).map .rightAssoc
  | .expression head_ tail_ => do
      let head ← mapColumns columnMap head_
      let tail ← mapTail tail_
      return .expression head tail
where
  mapTail : List (Text × Operand) → Option (List (Text × MappedOperand))
    | [] => some []
    | (operator_, operand_) :: tail_ => do
        let operand ← mapColumns columnMap operand_
        let tail ← mapTail tail_
        return (operator_, operand) :: tail

def modifyWhereExpression (inputSchema : List TableInfo.ColumnInfo) (condition : Expression) :
    Option MappedExpression := do
  let head ← mapColumns (columnMap inputSchema) condition.head_
  let tail ← mapColumns.mapTail (columnMap inputSchema) condition.tail_
  return ⟨head, tail⟩

/-- `cppOperatorMap`. -/
def cppOperator (op : Text) : Text :=
  if op = ['a', 'n', 'd'] then ['&', '&']
  else if op = ['o', 'r'] then ['|', '|']
  else if op = ['n', 'o', 't'] then ['!']
  else if op = ['='] then ['=', '=']
  else if op = ['<', '>'] then ['!', '=']
  else op

/-- `GenExpressionVisitor`. -/
def MappedOperand.generate : MappedOperand → Text
  | .nil => []
  | .literal value_ => printInt value_
  | .column _ columnPosition_ =>
      ['g', 'e', 't', '<'] ++ Nat.toDigits 10 columnPosition_ ++ ['>', '(', 't', 'p', ')']
  | .rightAssoc left_ => left_.generate
  | .expression head_ tail_ => head_.generate ++ generateTail tail_
where
  generateTail : List (Text × MappedOperand) → Text
    | [] => []
    | (operator_, operand_) :: tail_ =>
        ' ' :: cppOperator operator_ ++ ' ' :: operand_.generate ++ generateTail tail_

def generateWhereExpression (condition : MappedExpression) : Text :=
  condition.head_.generate ++ MappedOperand.generate.generateTail condition.tail_

end SQL

end PipeFabric
