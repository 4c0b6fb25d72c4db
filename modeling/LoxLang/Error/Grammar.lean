import LoxLang.Token

/-! Faults of a token list against the grammar. Most say which symbol or name was wanted and where;
the others name a whole construct that is missing, misplaced or too long. -/
namespace LoxLang

/-- The two declarations with parameters and a body. -/
inductive Routine where
  | function | method
  deriving DecidableEq, Repr

def Routine.noun : Routine → String
  | .function => "function"
  | .method => "method"

namespace SyntaxError

/-- What a missing name would have named. -/
inductive NameRole where
  | ofClass | ofSuperclass | ofRoutine (r : Routine) | ofParameter | ofVariable | ofProperty
  | ofSuperclassMethod
  deriving DecidableEq, Repr

def NameRole.text : NameRole → String
  | .ofClass => "class name"
  | .ofSuperclass => "superclass name"
  | .ofRoutine r => r.noun ++ " name"
  | .ofParameter => "parameter name"
  | .ofVariable => "variable name"
  | .ofProperty => "property name after '.'"
  | .ofSuperclassMethod => "superclass method name"

/-- Where a missing symbol belongs. -/
inductive Place where
  | beforeClassBody | afterClassBody | afterRoutineName (r : Routine) | afterParameters
  | beforeRoutineBody (r : Routine) | afterVariable | afterFor | afterLoopCondition
  | afterForClauses | afterPrintedValue | afterExpressionStatement | afterIf | afterIfCondition
  | afterWhile | afterWhileCondition | afterReturnValue | afterBlock | afterThenBranch
  | afterArguments | afterSuper | afterGrouping
  deriving DecidableEq, Repr

def Place.text : Place → String
  | .beforeClassBody => "before class body"
  | .afterClassBody => "after class body"
  | .afterRoutineName r => "after " ++ r.noun ++ " name"
  | .afterParameters => "after parameters"
  | .beforeRoutineBody r => "before " ++ r.noun ++ " body"
  | .afterVariable => "after variable declaration"
  | .afterFor => "after 'for'"
  | .afterLoopCondition => "after loop condition"
  | .afterForClauses => "after for clauses"
  | .afterPrintedValue => "after value"
  | .afterExpressionStatement => "after expression"
  | .afterIf => "after 'if'"
  | .afterIfCondition => "after if condition"
  | .afterWhile => "after 'while'"
  | .afterWhileCondition => "after condition"
  | .afterReturnValue => "after return value"
  | .afterBlock => "after block"
  | .afterThenBranch => "after then branch of conditional expression"
  | .afterArguments => "after arguments"
  | .afterSuper => "after 'super'"
  | .afterGrouping => "after expression"

inductive Cause where
  | missingName (role : NameRole)
  | missingSymbol (s : Symbol) (place : Place)
  | missingExpression
  | missingLeftOperand
  | missingEnd
  | invalidAssignmentTarget
  | tooManyParameters
  | tooManyArguments
  deriving DecidableEq, Repr

def Cause.message : Cause → String
  | .missingName role => "Expect " ++ role.text ++ "."
  | .missingSymbol s place => "Expect '" ++ String.ofList s.spelling ++ "' " ++ place.text ++ "."
  | .missingExpression => "Expect expression."
  | .missingLeftOperand => "Missing left-hand operand."
  | .missingEnd => "Expect end of expression."
  | .invalidAssignmentTarget => "Invalid assignment target."
  | .tooManyParameters => "Can't have more than 255 parameters."
  | .tooManyArguments => "Can't have more than 255 arguments."

end SyntaxError

/-- A fault, and the token at which it was found. -/
structure SyntaxError where
  cause : SyntaxError.Cause
  found : Token
  deriving DecidableEq

/-- A token as the place of a fault: its lexeme, or the end of the text. -/
def Token.location (t : Token) : String :=
  match t.kind with
  | .endOfFile => "at end"
  | _ => "at '" ++ t.lexeme ++ "'"

/-- A message at a token. -/
def Token.report (t : Token) (message : String) : String :=
  "[line " ++ toString t.line ++ "] Error " ++ t.location ++ ": " ++ message

def SyntaxError.text (e : SyntaxError) : String := e.found.report e.cause.message

end LoxLang
