/-! Faults of source text that yield no token. -/
namespace LoxLang

inductive LexicalError.Cause where
  | unexpectedCharacter (c : Char)
  | unterminatedString
  | unterminatedComment
  deriving DecidableEq, Repr

/-- A fault, and the line on which the text it covers ends. -/
structure LexicalError where
  cause : LexicalError.Cause
  line : Nat
  deriving DecidableEq, Repr

namespace LexicalError

def Cause.message : Cause → String
  | .unexpectedCharacter c => "Unexpected character: " ++ c.toString
  | .unterminatedString => "Unterminated string."
  | .unterminatedComment => "Unterminated block comment."

def text (e : LexicalError) : String :=
  "[line " ++ toString e.line ++ "] Error : " ++ e.cause.message

end LexicalError
end LoxLang
