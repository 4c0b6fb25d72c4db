/-! Faults of evaluation. The first one ends a run. Operands appear in them as their displayed
text. -/
namespace LoxLang

inductive RuntimeError.Cause where
  | undefinedVariable (name : String)
  | undefinedProperty (name : String)
  | operandNotNumber
  | operandsNotNumbers (left operator right : String)
  | operandsNotAddable (left operator right : String)
  | divisionByZero
  | remainderByZero
  | invalidUnaryOperator (operator : String)
  | invalidBinaryOperator (operator : String)
  | notCallable
  | wrongArgumentCount (expected got : Nat)
  | stackOverflow
  | propertyOfNonInstance
  | fieldOfNonInstance
  | superclassNotClass
  | unresolvedSuper
  | invalidSuperBinding
  deriving DecidableEq, Repr

structure RuntimeError where
  cause : RuntimeError.Cause
  line : Nat
  deriving DecidableEq, Repr

namespace RuntimeError

def Cause.message : Cause → String
  | .undefinedVariable name => "Undefined variable '" ++ name ++ "'."
  | .undefinedProperty name => "Undefined property '" ++ name ++ "'."
  | .operandNotNumber => "Operand must be a number."
  | .operandsNotNumbers left operator right =>
    "Operands must be numbers. But got " ++ left ++ " " ++ operator ++ " " ++ right ++ "."
  | .operandsNotAddable left operator right =>
    "Operands must be two numbers or two strings. But got " ++ left ++ " " ++ operator ++ " "
      ++ right ++ "."
  | .divisionByZero => "division by zero"
  | .remainderByZero => "mod by zero"
  | .invalidUnaryOperator operator => "Invalid unary operator '" ++ operator ++ "'."
  | .invalidBinaryOperator operator => "Invalid binary operator '" ++ operator ++ "'."
  | .notCallable => "Can only call functions and classes."
  | .wrongArgumentCount expected got =>
    "Expected " ++ toString expected ++ " arguments but got " ++ toString got ++ "."
  | .stackOverflow => "Stack overflow."
  | .propertyOfNonInstance => "Only instances have properties."
  | .fieldOfNonInstance => "Only instances have fields."
  | .superclassNotClass => "Superclass must be a class."
  | .unresolvedSuper => "Unresolved 'super'."
  | .invalidSuperBinding => "Invalid 'super' binding."

/-- The message, a space, and the line on a line of its own. -/
def text (e : RuntimeError) : String :=
  e.cause.message ++ " \n[line " ++ toString e.line ++ "]"

end RuntimeError
end LoxLang
