import LoxLang.Error.Runtime
import LoxLang.Value

/-! Operators on values. An operator is given by its token, which any token can be; one that is no
operator is a fault, found only after its operands have been judged. -/
namespace LoxLang.Operator

def unary (operator : Token) (right : Value) : Except RuntimeError Value :=
  match operator.kind with
  | .symbol .minus =>
    match right with
    | .number x => .ok (.number (-x))
    | _ => .error ⟨.operandNotNumber, operator.line⟩
  | .symbol .bang => .ok (.boolean !right.isTruthy)
  | _ => .error ⟨.invalidUnaryOperator operator.lexeme, operator.line⟩

/-- Adds two numbers, and joins strings with strings and with numbers. -/
def add (operator : Token) (left right : Value) : Except RuntimeError Value :=
  match left, right with
  | .number a, .number b => .ok (.number (a + b))
  | .string a, .string b => .ok (.string (a ++ b))
  | .string a, .number b => .ok (.string (a ++ Number.display b))
  | .number a, .string b => .ok (.string (Number.display a ++ b))
  | _, _ =>
    .error ⟨.operandsNotAddable left.display operator.lexeme right.display, operator.line⟩

/-- The operators whose operands are two numbers. -/
def arithmetic (operator : Token) (a b : Float) : Except RuntimeError Value :=
  match operator.kind with
  | .symbol .minus => .ok (.number (a - b))
  | .symbol .star => .ok (.number (a * b))
  | .symbol .starStar => .ok (.number (a ^ b))
  | .symbol .slash =>
    if b == 0 then .error ⟨.divisionByZero, operator.line⟩ else .ok (.number (a / b))
  | .symbol .percent =>
    if b == 0 then .error ⟨.remainderByZero, operator.line⟩
    else .ok (.number (Number.remainder a b))
  | .symbol .greater => .ok (.boolean (b < a))
  | .symbol .greaterEqual => .ok (.boolean (b ≤ a))
  | .symbol .less => .ok (.boolean (a < b))
  | .symbol .lessEqual => .ok (.boolean (a ≤ b))
  | _ => .error ⟨.invalidBinaryOperator operator.lexeme, operator.line⟩

def binary (operator : Token) (left right : Value) : Except RuntimeError Value :=
  match operator.kind with
  | .symbol .plus => add operator left right
  | .symbol .equalEqual => .ok (.boolean (left.equals right))
  | .symbol .bangEqual => .ok (.boolean !(left.equals right))
  | _ =>
    match left, right with
    | .number a, .number b => arithmetic operator a b
    | _, _ =>
      .error ⟨.operandsNotNumbers left.display operator.lexeme right.display, operator.line⟩

/-- Whether a logical operator is decided by its left operand: `or` by a true one, every other by
a false one. -/
def isDecidedBy (operator : Token) (left : Value) : Bool :=
  match operator.kind with
  | .keyword .or_ => left.isTruthy
  | _ => !left.isTruthy

end LoxLang.Operator
