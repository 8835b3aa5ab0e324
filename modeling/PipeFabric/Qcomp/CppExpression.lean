import PipeFabric.Qcomp.WhereExpression
import PipeFabric.Qcomp.SQLRoundTrip

/-!
# C++ expressions

The part of C++ that the generated conditions are written in: attributes of the tuple
`tp`, integer literals, comparisons, `&&` and `||`.  The grammar has one rule for every
level of precedence, and the operators of a level associate to the left.
-/

namespace PipeFabric.Cpp

open PEG SQL

/-! ### Values -/

inductive IntegerType where
  | int
  | unsigned
  | long
  deriving DecidableEq

/-- What is used of the type `double`. -/
class FloatingPoint (Double : Type) where
  ofInt : Int → Double
  compare : Comparator → Double → Double → Bool

inductive Value (Double : Type) where
  | integer (type : IntegerType) (value : Int)
  | double (value : Double)
  | string (value : Text)
  | bool (value : Bool)

variable {Double : Type}

/-- The comparisons of an ordered type. -/
def compare {α : Type} [DecidableEq α] [LT α] [DecidableLT α] (operator : Comparator)
    (left right : α) : Bool :=
  match operator with
  | .equal => left = right
  | .unequal => left ≠ right
  | .less => left < right
  | .lessEqual => ¬ right < left
  | .greater => right < left
  | .greaterEqual => ¬ left < right

/-- Comparisons by value.  A number and a string cannot be compared. -/
def Value.compare [FloatingPoint Double] (operator : Comparator) :
    Value Double → Value Double → Option Bool
  | .integer _ left, .integer _ right => some (Cpp.compare operator left right)
  | .integer _ left, .double right =>
      some (FloatingPoint.compare operator (FloatingPoint.ofInt left) right)
  | .double left, .integer _ right =>
      some (FloatingPoint.compare operator left (FloatingPoint.ofInt right))
  | .double left, .double right => some (FloatingPoint.compare operator left right)
  | .string left, .string right => some (Cpp.compare operator left right)
  | _, _ => none

/-- The integral promotion. -/
def Value.promote : Value Double → Value Double
  | .bool value => .integer .int (if value then 1 else 0)
  | value => value

def IntegerType.common : IntegerType → IntegerType → IntegerType
  | .int, .int => .int
  | .long, _ => .long
  | _, .long => .long
  | _, _ => .unsigned

/-- The conversion of a value that fits into one of the types. -/
def IntegerType.convert (type : IntegerType) (value : Int) : Int :=
  match type with
  | .unsigned => value % 4294967296
  | _ => value

/-- The usual arithmetic conversions, apart from those to `double`. -/
def usualConversions : Value Double → Value Double → Value Double × Value Double
  | .integer left value, .integer right other =>
      let common := left.common right
      (.integer common (common.convert value), .integer common (common.convert other))
  | left, right => (left, right)

/-- The contextual conversion to `bool`. -/
def Value.toBool [FloatingPoint Double] : Value Double → Option Bool
  | .integer _ value => some (value ≠ 0)
  | .double value => some (FloatingPoint.compare .unequal value (FloatingPoint.ofInt 0))
  | .string _ => none
  | .bool value => some value

/-! ### Expressions -/

inductive Expr where
  | get (position : Nat)
  | literal (value : Nat)
  | minus (operand : Expr)
  | compare (operator : Comparator) (left right : Expr)
  | and (left right : Expr)
  | or (left right : Expr)

/-- The type of a decimal literal. -/
def literalType (value : Nat) : IntegerType :=
  if value < 2147483648 then .int else .long

/-- The value of an expression for a tuple, if it compiles.  Nothing is lost by evaluating
both operands of `&&` and `||`. -/
def Expr.value [FloatingPoint Double] (tp : List (Value Double)) : Expr → Option (Value Double)
  | .get position => tp[position]?
  | .literal value => some (.integer (literalType value) value)
  | .minus operand => do
      match (← operand.value tp).promote with
      | .integer type value => return .integer type (type.convert (-value))
      | _ => none
  | .compare operator left right => do
      let operands := usualConversions (← left.value tp).promote (← right.value tp).promote
      return .bool (← Value.compare operator operands.1 operands.2)
  | .and left right => do
      return .bool ((← (← left.value tp).toBool) && (← (← right.value tp).toBool))
  | .or left right => do
      return .bool ((← (← left.value tp).toBool) || (← (← right.value tp).toBool))

/-! ### The grammar -/

/-- Operators of one level with their operands, from left to right. -/
def leftAssociative {Operator : Type} (combine : Operator → Expr → Expr → Expr)
    (operator : PEG.Parser Char Operator) (operand : PEG.Parser Char Expr) :
    PEG.Parser Char Expr :=
  PEG.map (fun chain => chain.2.foldl (fun left next => combine next.1 left next.2) chain.1)
    (PEG.seq operand (PEG.many (PEG.seq operator operand)))

/-- The digits of a decimal literal, which has no leading zero. -/
def decimal : PEG.Parser Char Nat :=
  PEG.choice
    (PEG.map (fun digits => Nat.ofDigitChars 10 (digits.1 :: digits.2) 0)
      (PEG.seq (PEG.token fun c => c.isDigit && c ≠ '0') (PEG.many (PEG.token Char.isDigit))))
    (PEG.map (fun _ => 0) (PEG.token fun c => c = '0'))

def tupleAttribute : PEG.Parser Char Expr :=
  PEG.map (fun call => .get call.2.1)
    (PEG.seq (lit ['g', 'e', 't', '<']) (PEG.seq decimal (PEG.literal ['>', '(', 't', 'p', ')'])))

def literal : PEG.Parser Char Expr := PEG.map .literal (PEG.skip space decimal)

def primary : PEG.Parser Char Expr := PEG.choice tupleAttribute literal

/-- An operand with a sign or without. -/
def unary : PEG.Parser Char Expr :=
  PEG.choice (PEG.map (fun signed => .minus signed.2) (PEG.seq (lit ['-']) primary)) primary

def comparator (operator : Comparator) (text : Text) : PEG.Parser Char Comparator :=
  PEG.map (fun _ => operator) (lit text)

def relationalOperator : PEG.Parser Char Comparator :=
  PEG.choice (comparator .lessEqual ['<', '='])
    (PEG.choice (comparator .greaterEqual ['>', '='])
      (PEG.choice (comparator .less ['<']) (comparator .greater ['>'])))

def relational : PEG.Parser Char Expr := leftAssociative .compare relationalOperator unary

def equalityOperator : PEG.Parser Char Comparator :=
  PEG.choice (comparator .equal ['=', '=']) (comparator .unequal ['!', '='])

def equality : PEG.Parser Char Expr := leftAssociative .compare equalityOperator relational

def conjunction : PEG.Parser Char Expr :=
  leftAssociative (fun _ => .and) (lit ['&', '&']) equality

def disjunction : PEG.Parser Char Expr :=
  leftAssociative (fun _ => .or) (lit ['|', '|']) conjunction

/-- The expression that a text stands for. -/
def read (text : Text) : Option Expr :=
  match disjunction text with
  | .success expr rest => if rest.all space then some expr else none
  | _ => none

/-- What a text makes of a tuple as the result of the predicate. -/
def predicate [FloatingPoint Double] (text : Text) (tp : List (Value Double)) : Option Bool := do
  let expr ← read text
  let value ← expr.value tp
  value.toBool

end PipeFabric.Cpp
