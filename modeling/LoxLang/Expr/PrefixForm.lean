import LoxLang.Expr
import LoxLang.Number

/-! The prefix form of an expression: each operator before its operands, in parentheses, as in
`(* (- 1) (group 2))`. -/
namespace LoxLang

def Literal.text : Literal → String
  | .number value => Number.display value
  | .string text => text
  | .boolean true => "true"
  | .boolean false => "false"
  | .nil => "nil"

namespace Expr

mutual

def prefixForm : Expr → String
  | .literal value => value.text
  | .grouping inner => "(group " ++ inner.prefixForm ++ ")"
  | .unary operator right => "(" ++ operator.lexeme ++ " " ++ right.prefixForm ++ ")"
  | .binary left operator right =>
    "(" ++ operator.lexeme ++ " " ++ left.prefixForm ++ " " ++ right.prefixForm ++ ")"
  | .logical left operator right =>
    "(" ++ operator.lexeme ++ " " ++ left.prefixForm ++ " " ++ right.prefixForm ++ ")"
  | .conditional condition thenBranch elseBranch =>
    "(conditional " ++ condition.prefixForm ++ " " ++ thenBranch.prefixForm ++ " "
      ++ elseBranch.prefixForm ++ ")"
  | .variable target => target.name.lexeme
  | .assign target value => "(= " ++ target.name.lexeme ++ " " ++ value.prefixForm ++ ")"
  | .call callee _ arguments => "(call " ++ callee.prefixForm ++ argumentsForm arguments ++ ")"
  | .get object name => "(. " ++ object.prefixForm ++ " " ++ name.lexeme ++ ")"
  | .set object name value =>
    "(= (. " ++ object.prefixForm ++ " " ++ name.lexeme ++ ") " ++ value.prefixForm ++ ")"
  | .this _ => "this"
  | .super _ method => "(super " ++ method.lexeme ++ ")"

/-- Each argument after a space. -/
def argumentsForm : List Expr → String
  | [] => ""
  | argument :: rest => " " ++ argument.prefixForm ++ argumentsForm rest

end

end Expr
end LoxLang
