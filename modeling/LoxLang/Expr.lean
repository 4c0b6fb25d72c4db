import LoxLang.Token

/-! Expressions. Nodes keep the tokens that diagnostics name. A node that refers to a binding keeps
an identity of its own, so that two references of the same spelling can have different meanings. -/
namespace LoxLang

/-- The identity of a reference, unique within one program. -/
abbrev NodeId := Nat

/-- An occurrence of a name that refers to a binding. -/
structure Reference where
  id : NodeId
  name : Token
  deriving DecidableEq

inductive Literal where
  | number (value : Float)
  | string (text : String)
  | boolean (value : Bool)
  | nil
  deriving DecidableEq

inductive Expr where
  | literal (value : Literal)
  | grouping (inner : Expr)
  | unary (operator : Token) (right : Expr)
  | binary (left : Expr) (operator : Token) (right : Expr)
  | logical (left : Expr) (operator : Token) (right : Expr)
  | conditional (condition thenBranch elseBranch : Expr)
  | variable (target : Reference)
  | assign (target : Reference) (value : Expr)
  /-- A call; `paren` is its closing parenthesis. -/
  | call (callee : Expr) (paren : Token) (arguments : List Expr)
  | get (object : Expr) (name : Token)
  | set (object : Expr) (name : Token) (value : Expr)
  | this (keyword : Reference)
  | super (keyword : Reference) (method : Token)

end LoxLang
