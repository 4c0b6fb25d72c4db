import LoxLang.Error.Lexical
import LoxLang.Error.Runtime
import LoxLang.Error.Scope

/-! Diagnostics: what a program's author is told, whichever stage found it. -/
namespace LoxLang

inductive Diagnostic where
  | lexical (e : LexicalError)
  | grammar (e : SyntaxError)
  | scope (e : ScopeError)
  | runtime (e : RuntimeError)
  deriving DecidableEq

namespace Diagnostic

def text : Diagnostic → String
  | .lexical e => e.text
  | .grammar e => e.text
  | .scope e => e.text
  | .runtime e => e.text

/-- The line that a diagnostic names. -/
def line : Diagnostic → Nat
  | .lexical e => e.line
  | .grammar e => e.found.line
  | .scope e => e.found.line
  | .runtime e => e.line

end Diagnostic
end LoxLang
