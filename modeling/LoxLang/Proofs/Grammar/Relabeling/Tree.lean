import LoxLang.Grammar.Statement
import LoxLang.Proofs.Token.Join

/-! Trees with other lines and other identities. A relabeling changes the lines of all tokens and adds
the same number to all identities of references; it leaves the kinds and the texts of tokens alone. One
of them changes nothing. -/
namespace LoxLang

structure Relabeling where
  line : Nat → Nat
  /-- How much is added to every identity. -/
  ids : Nat

namespace Relabeling

variable (σ : Relabeling)

def token (t : Token) : Token := t.relined σ.line

theorem token_kind (t : Token) : (σ.token t).kind = t.kind := rfl

def reference (r : Reference) : Reference := ⟨r.id + σ.ids, σ.token r.name⟩

mutual

def expr : Expr → Expr
  | .literal l => .literal l
  | .grouping inner => .grouping (expr inner)
  | .unary operator right => .unary (σ.token operator) (expr right)
  | .binary left operator right => .binary (expr left) (σ.token operator) (expr right)
  | .logical left operator right => .logical (expr left) (σ.token operator) (expr right)
  | .conditional condition thenBranch elseBranch =>
    .conditional (expr condition) (expr thenBranch) (expr elseBranch)
  | .variable r => .variable (σ.reference r)
  | .assign r value => .assign (σ.reference r) (expr value)
  | .call callee paren arguments => .call (expr callee) (σ.token paren) (exprs arguments)
  | .get object name => .get (expr object) (σ.token name)
  | .set object name value => .set (expr object) (σ.token name) (expr value)
  | .this r => .this (σ.reference r)
  | .super r method => .super (σ.reference r) (σ.token method)

def exprs : List Expr → List Expr
  | [] => []
  | e :: rest => expr e :: exprs rest

end

mutual

def stmt : Stmt → Stmt
  | .expression e => .expression (σ.expr e)
  | .print e => .print (σ.expr e)
  | .var name initializer => .var (σ.token name) (initializer.map σ.expr)
  | .block body => .block (stmts body)
  | .if_ condition thenBranch none => .if_ (σ.expr condition) (stmt thenBranch) none
  | .if_ condition thenBranch (some elseBranch) =>
    .if_ (σ.expr condition) (stmt thenBranch) (some (stmt elseBranch))
  | .while_ condition body => .while_ (σ.expr condition) (stmt body)
  | .function d => .function (declaration d)
  | .return_ keyword value => .return_ (σ.token keyword) (value.map σ.expr)
  | .class_ name clause methods =>
    .class_ (σ.token name) (clause.map σ.reference) (declarations methods)

def stmts : List Stmt → List Stmt
  | [] => []
  | s :: rest => stmt s :: stmts rest

def declaration : Declaration → Declaration
  | ⟨name, parameters, body⟩ => ⟨σ.token name, parameters.map σ.token, stmts body⟩

def declarations : List Declaration → List Declaration
  | [] => []
  | d :: rest => declaration d :: declarations rest

end

theorem if_eq (condition : Expr) (thenBranch : Stmt) (elseBranch : Option Stmt) :
    σ.stmt (.if_ condition thenBranch elseBranch) =
      .if_ (σ.expr condition) (σ.stmt thenBranch) (elseBranch.map σ.stmt) := by
  cases elseBranch <;> rfl

/-- The relabeling to the same lines and the same identities. -/
abbrev same : Relabeling := ⟨id, 0⟩

theorem token_same (t : Token) : same.token t = t := rfl

theorem reference_same (r : Reference) : same.reference r = r := rfl

mutual

theorem expr_same (e : Expr) : same.expr e = e := by
  cases e with
  | literal => rfl
  | «variable» => rfl
  | this => rfl
  | super => rfl
  | grouping inner => rw [expr, expr_same inner]
  | unary operator right => rw [expr, token_same, expr_same right]
  | binary left operator right => rw [expr, token_same, expr_same left, expr_same right]
  | logical left operator right => rw [expr, token_same, expr_same left, expr_same right]
  | conditional condition thenBranch elseBranch =>
    rw [expr, expr_same condition, expr_same thenBranch, expr_same elseBranch]
  | assign r value => rw [expr, reference_same, expr_same value]
  | call callee paren arguments => rw [expr, token_same, expr_same callee, exprs_same arguments]
  | get object name => rw [expr, token_same, expr_same object]
  | set object name value => rw [expr, token_same, expr_same object, expr_same value]

theorem exprs_same (es : List Expr) : same.exprs es = es := by
  cases es with
  | nil => rfl
  | cons e rest => rw [exprs, expr_same e, exprs_same rest]

end

theorem clause_same (e : Option Expr) : e.map same.expr = e := by
  cases e with
  | none => rfl
  | some e => rw [Option.map_some, expr_same]

mutual

theorem stmt_same (s : Stmt) : same.stmt s = s := by
  cases s with
  | expression e => rw [stmt, expr_same]
  | print e => rw [stmt, expr_same]
  | var name initializer => rw [stmt, token_same, clause_same]
  | block body => rw [stmt, stmts_same body]
  | if_ condition thenBranch elseBranch =>
    cases elseBranch with
    | none => rw [stmt, expr_same, stmt_same thenBranch]
    | some elseBranch => rw [stmt, expr_same, stmt_same thenBranch, stmt_same elseBranch]
  | while_ condition body => rw [stmt, expr_same, stmt_same body]
  | function d => rw [stmt, declaration_same d]
  | return_ keyword value => rw [stmt, token_same, clause_same]
  | class_ name clause methods =>
    have parent : clause.map same.reference = clause := by cases clause <;> rfl
    rw [stmt, token_same, parent, declarations_same methods]

theorem stmts_same (body : List Stmt) : same.stmts body = body := by
  cases body with
  | nil => rfl
  | cons s rest => rw [stmts, stmt_same s, stmts_same rest]

theorem declaration_same (d : Declaration) : same.declaration d = d := by
  cases d with
  | mk name parameters body =>
    have named : parameters.map same.token = parameters := List.map_id parameters
    rw [declaration, token_same, named, stmts_same body]

theorem declarations_same (ds : List Declaration) : same.declarations ds = ds := by
  cases ds with
  | nil => rfl
  | cons d rest => rw [declarations, declaration_same d, declarations_same rest]

end

end Relabeling
end LoxLang
