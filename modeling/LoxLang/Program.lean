import LoxLang.Diagnostic
import LoxLang.Grammar.Statement
import LoxLang.Token.Scan

/-! Source text as a program or as one expression, with all that is wrong with its form: the lexical
faults first, then those of the grammar. Text with lexical faults is still read, from the tokens
around them. -/
namespace LoxLang

structure Program where
  statements : List Stmt
  faults : List Diagnostic

def Program.read (source : String) : Program :=
  let (tokens, lexical) := scan source
  let (statements, grammar) := Grammar.readProgram tokens
  ⟨statements, lexical.map .lexical ++ grammar.map .grammar⟩

theorem Program.read_eq (source : String) :
    Program.read source = ⟨(Grammar.readProgram (scan source).1).1,
      (scan source).2.map .lexical ++ (Grammar.readProgram (scan source).1).2.map .grammar⟩ := rfl

section Reading

variable {source : String} {tokens : List Token} {statements : List Stmt}

theorem Program.statements_of_scan (scanned : (scan source).1 = tokens)
    (parsed : (Grammar.readProgram tokens).1 = statements) : (Program.read source).statements = statements := by
  rw [Program.read_eq, scanned, parsed]

theorem Program.read_of_scan (scanned : scan source = (tokens, []))
    (parsed : Grammar.readProgram tokens = (statements, [])) : Program.read source = ⟨statements, []⟩ := by
  rw [Program.read_eq, scanned, parsed]
  rfl

end Reading

/-- An expression can be there together with faults. -/
def Expr.read (source : String) : Option Expr × List Diagnostic :=
  let (tokens, lexical) := scan source
  let (e, grammar) := Grammar.readExpression tokens
  (e, lexical.map .lexical ++ grammar.map .grammar)

end LoxLang
