import LoxLang.Expr

/-! Statements. A `for` loop is no statement of its own: it is a `while` loop inside blocks
(`LoxLang.Grammar.Statement`). -/
namespace LoxLang

mutual

inductive Stmt where
  | expression (e : Expr)
  | print (e : Expr)
  | var (name : Token) (initializer : Option Expr)
  | block (body : List Stmt)
  | if_ (condition : Expr) (thenBranch : Stmt) (elseBranch : Option Stmt)
  | while_ (condition : Expr) (body : Stmt)
  | function (declaration : Declaration)
  | return_ (keyword : Token) (value : Option Expr)
  | class_ (name : Token) (superclass : Option Reference) (methods : List Declaration)

/-- A function or method as it is written. -/
structure Declaration where
  name : Token
  parameters : List Token
  body : List Stmt

end

/-- The method that runs when an instance is made. -/
def initializerName : String := "init"

end LoxLang
