import LoxLang.Proofs.Grammar.Tree
import LoxLang.Scope

/-! Renaming a local variable in a program. One scope is chosen in which a variable or a parameter is
declared; its declaration gets the new name, and so does every reference whose recorded depth leads
from the reference to that very scope. Everything else in the program stays as it is. -/
namespace LoxLang

/-- Variables called `old` are to be called `new`, in a program whose references have these depths. -/
structure Renaming where
  depths : Depths
  old : String
  new : String

namespace Renaming
open Grammar

variable (ρ : Renaming)

/-- What a name becomes that belongs to a scope, which is marked if its variable is renamed. -/
def name (marked : Bool) (text : String) : String :=
  if marked = true ∧ text = ρ.old then ρ.new else text

def token (marked : Bool) (t : Token) : Token := { t with lexeme := ρ.name marked t.lexeme }

/-- Whether a reference leads to a marked scope; `marks` has a mark for each of the scopes around it,
innermost first. -/
def leads (marks : List Bool) (id : NodeId) : Bool :=
  match ρ.depths[id]? with
  | some depth => marks[depth]?.getD false
  | none => false

def reference (marks : List Bool) (r : Reference) : Reference :=
  ⟨r.id, ρ.token (ρ.leads marks r.id) r.name⟩

mutual

def expr (marks : List Bool) : Expr → Expr
  | .literal l => .literal l
  | .grouping inner => .grouping (expr marks inner)
  | .unary operator right => .unary operator (expr marks right)
  | .binary left operator right => .binary (expr marks left) operator (expr marks right)
  | .logical left operator right => .logical (expr marks left) operator (expr marks right)
  | .conditional condition thenBranch elseBranch =>
    .conditional (expr marks condition) (expr marks thenBranch) (expr marks elseBranch)
  | .variable r => .variable (ρ.reference marks r)
  | .assign r value => .assign (ρ.reference marks r) (expr marks value)
  | .call callee paren arguments => .call (expr marks callee) paren (exprs marks arguments)
  | .get object name => .get (expr marks object) name
  | .set object name value => .set (expr marks object) name (expr marks value)
  | .this r => .this r
  | .super r method => .super r method

def exprs (marks : List Bool) : List Expr → List Expr
  | [] => []
  | e :: rest => expr marks e :: exprs marks rest

end

def clause (marks : List Bool) : Option Expr → Option Expr
  | none => none
  | some e => some (ρ.expr marks e)

def superclass (marks : List Bool) : Option Reference → Option Reference
  | none => none
  | some r => some (ρ.reference marks r)

/-- The marks inside the methods of a class: nothing is renamed in the scopes of `this` and `super`. -/
def insideClass (clause : Option Reference) (marks : List Bool) : List Bool :=
  match clause with
  | none => false :: marks
  | some _ => false :: false :: marks

mutual

/-- Scopes inside the statement are not marked. -/
def stmt (marks : List Bool) : Stmt → Stmt
  | .expression e => .expression (ρ.expr marks e)
  | .print e => .print (ρ.expr marks e)
  | .var name initializer => .var (ρ.token (marks.headD false) name) (ρ.clause marks initializer)
  | .block body => .block (stmts (false :: marks) body)
  | .if_ condition thenBranch none => .if_ (ρ.expr marks condition) (stmt marks thenBranch) none
  | .if_ condition thenBranch (some elseBranch) =>
    .if_ (ρ.expr marks condition) (stmt marks thenBranch) (some (stmt marks elseBranch))
  | .while_ condition body => .while_ (ρ.expr marks condition) (stmt marks body)
  | .function d => .function (declaration false marks d)
  | .return_ keyword value => .return_ keyword (ρ.clause marks value)
  | .class_ name clause methods =>
    .class_ name (ρ.superclass marks clause) (declarations (insideClass clause marks) methods)

def stmts (marks : List Bool) : List Stmt → List Stmt
  | [] => []
  | s :: rest => stmt marks s :: stmts marks rest

/-- The scope of the declaration itself may be marked. -/
def declaration (marked : Bool) (marks : List Bool) : Declaration → Declaration
  | ⟨name, parameters, body⟩ =>
    ⟨name, parameters.map (ρ.token marked), stmts (marked :: marks) body⟩

def declarations (marks : List Bool) : List Declaration → List Declaration
  | [] => []
  | d :: rest => declaration false marks d :: declarations marks rest

end

/-- One of the statements declares a variable of the old name. -/
def DeclaresOld (body : List Stmt) : Prop :=
  ∃ name initializer, Stmt.var name initializer ∈ body ∧ name.lexeme = ρ.old

/-- The second tree is the first one with the variable renamed that is declared in one of its scopes.
The marks are those of the scopes around the tree, none of which is that one. -/
inductive Renames : List Bool → Tree → Tree → Prop
  | block {marks body} (declared : ρ.DeclaresOld body) :
    Renames marks (.stmt (.block body)) (.stmt (.block (ρ.stmts (true :: marks) body)))
  | routine {marks name parameters body}
    (declared : (∃ p ∈ parameters, p.lexeme = ρ.old) ∨ ρ.DeclaresOld body) :
    Renames marks (.routine ⟨name, parameters, body⟩)
      (.routine (ρ.declaration true marks ⟨name, parameters, body⟩))
  | inBlock {marks body body'} (inner : Renames (false :: marks) (.stmts body) (.stmts body')) :
    Renames marks (.stmt (.block body)) (.stmt (.block body'))
  | inThen {marks e s s' other} (inner : Renames marks (.stmt s) (.stmt s')) :
    Renames marks (.stmt (.if_ e s other)) (.stmt (.if_ e s' other))
  | inElse {marks e t s s'} (inner : Renames marks (.stmt s) (.stmt s')) :
    Renames marks (.stmt (.if_ e t (some s))) (.stmt (.if_ e t (some s')))
  | inLoop {marks e s s'} (inner : Renames marks (.stmt s) (.stmt s')) :
    Renames marks (.stmt (.while_ e s)) (.stmt (.while_ e s'))
  | inFunction {marks d d'} (inner : Renames marks (.routine d) (.routine d')) :
    Renames marks (.stmt (.function d)) (.stmt (.function d'))
  | inClass {marks name clause ds ds'}
    (inner : Renames (insideClass clause marks) (.routines ds) (.routines ds')) :
    Renames marks (.stmt (.class_ name clause ds)) (.stmt (.class_ name clause ds'))
  | inBody {marks name parameters body body'}
    (inner : Renames (false :: marks) (.stmts body) (.stmts body')) :
    Renames marks (.routine ⟨name, parameters, body⟩) (.routine ⟨name, parameters, body'⟩)
  | here {marks s s' rest} (inner : Renames marks (.stmt s) (.stmt s')) :
    Renames marks (.stmts (s :: rest)) (.stmts (s' :: rest))
  | later {marks s rest rest'} (inner : Renames marks (.stmts rest) (.stmts rest')) :
    Renames marks (.stmts (s :: rest)) (.stmts (s :: rest'))
  | hereRoutine {marks d d' rest} (inner : Renames marks (.routine d) (.routine d')) :
    Renames marks (.routines (d :: rest)) (.routines (d' :: rest))
  | laterRoutine {marks d rest rest'} (inner : Renames marks (.routines rest) (.routines rest')) :
    Renames marks (.routines (d :: rest)) (.routines (d :: rest'))

/-- Neither name is a reserved word. -/
structure Unreserved : Prop where
  old : ∀ k : Keyword, ρ.old ≠ k.spelling
  new : ∀ k : Keyword, ρ.new ≠ k.spelling

/-- In a marked scope the statement declares nothing but variables under the old name. -/
def Keeps (marked : Bool) (s : Stmt) : Prop :=
  marked = true → ∀ t, s.declared? = some t → (∀ name initializer, s ≠ .var name initializer) →
    t.lexeme ≠ ρ.old

variable {ρ} {marks : List Bool} {marked : Bool}

theorem name_false (text : String) : ρ.name false text = text := by simp [name]

theorem name_of_ne {text : String} (other : text ≠ ρ.old) (marked : Bool) :
    ρ.name marked text = text := by simp [name, other]

/-- Where the old name is the new one, nothing is renamed. -/
theorem name_of_same (same : ρ.old = ρ.new) (marked : Bool) (text : String) :
    ρ.name marked text = text := by
  unfold name
  split
  · next renamed => exact same.symm.trans renamed.2.symm
  · rfl

/-- Names other than the new one stay apart, whatever the marks of their scopes. -/
theorem name_inj {text text' : String} {marked marked' : Bool} (fresh : text ≠ ρ.new)
    (fresh' : text' ≠ ρ.new) (same : ρ.name marked text = ρ.name marked' text') : text = text' := by
  unfold name at same
  split at same
  · next old =>
    split at same
    · next old' => exact old.2.trans old'.2.symm
    · exact absurd same.symm fresh'
  · split at same
    · exact absurd same fresh
    · exact same

/-- A reserved word has one name in all scopes. -/
theorem Unreserved.name (unreserved : ρ.Unreserved) (k : Keyword) (marked : Bool) :
    ρ.name marked k.spelling = k.spelling := name_of_ne (unreserved.old k).symm marked

theorem keeps_plain {s : Stmt} (plain : s.declared? = none) : ρ.Keeps marked s := by
  intro _ t declared
  rw [plain] at declared
  cases declared

theorem keeps_unmarked {s : Stmt} : ρ.Keeps false s := nofun

/-! Where no scope is marked nothing is renamed. -/

theorem leads_unmarked (unmarked : ∀ b ∈ marks, b = false) (id : NodeId) : ρ.leads marks id = false := by
  unfold leads
  split
  · next depth _ =>
    cases found : marks[depth]? with
    | none => rfl
    | some b => exact unmarked b (List.mem_of_getElem? found)
  · rfl

theorem token_unmarked (t : Token) : ρ.token false t = t := by simp [token, name_false]

theorem headD_unmarked (unmarked : ∀ b ∈ marks, b = false) : marks.headD false = false := by
  cases marks with
  | nil => rfl
  | cons b rest => exact unmarked b List.mem_cons_self

theorem cons_unmarked (unmarked : ∀ b ∈ marks, b = false) : ∀ b ∈ false :: marks, b = false := by
  intro b member
  rcases List.mem_cons.mp member with rfl | member
  · rfl
  · exact unmarked b member

theorem insideClass_unmarked (clause : Option Reference) (unmarked : ∀ b ∈ marks, b = false) :
    ∀ b ∈ insideClass clause marks, b = false := by
  cases clause with
  | none => exact cons_unmarked unmarked
  | some r => exact cons_unmarked (cons_unmarked unmarked)

theorem reference_unmarked (unmarked : ∀ b ∈ marks, b = false) (r : Reference) :
    ρ.reference marks r = r := by
  simp [reference, leads_unmarked unmarked, token_unmarked]

mutual

theorem expr_unmarked (unmarked : ∀ b ∈ marks, b = false) : ∀ e, ρ.expr marks e = e
  | .literal _ | .this _ | .super _ _ => rfl
  | .grouping inner => by rw [expr, expr_unmarked unmarked inner]
  | .unary _ right => by rw [expr, expr_unmarked unmarked right]
  | .binary left _ right | .logical left _ right => by
    rw [expr, expr_unmarked unmarked left, expr_unmarked unmarked right]
  | .conditional condition thenBranch elseBranch => by
    rw [expr, expr_unmarked unmarked condition, expr_unmarked unmarked thenBranch,
      expr_unmarked unmarked elseBranch]
  | .variable r => by rw [expr, reference_unmarked unmarked]
  | .assign r value => by rw [expr, reference_unmarked unmarked, expr_unmarked unmarked value]
  | .call callee _ arguments => by
    rw [expr, expr_unmarked unmarked callee, exprs_unmarked unmarked arguments]
  | .get object _ => by rw [expr, expr_unmarked unmarked object]
  | .set object _ value => by rw [expr, expr_unmarked unmarked object, expr_unmarked unmarked value]

theorem exprs_unmarked (unmarked : ∀ b ∈ marks, b = false) : ∀ es, ρ.exprs marks es = es
  | [] => rfl
  | e :: rest => by rw [exprs, expr_unmarked unmarked e, exprs_unmarked unmarked rest]

end

theorem clause_unmarked (unmarked : ∀ b ∈ marks, b = false) (e : Option Expr) :
    ρ.clause marks e = e := by
  cases e with
  | none => rfl
  | some e => rw [clause, expr_unmarked unmarked e]

theorem superclass_unmarked (unmarked : ∀ b ∈ marks, b = false) (clause : Option Reference) :
    ρ.superclass marks clause = clause := by
  cases clause with
  | none => rfl
  | some r => rw [superclass, reference_unmarked unmarked]

theorem parameters_unmarked (ps : List Token) : ps.map (ρ.token false) = ps := by
  simp [funext token_unmarked]

mutual

theorem stmt_unmarked : ∀ marks, (∀ b ∈ marks, b = false) → ∀ s, ρ.stmt marks s = s
  | _, unmarked, .expression e | _, unmarked, .print e => by rw [stmt, expr_unmarked unmarked e]
  | _, unmarked, .var name initializer => by
    rw [stmt, headD_unmarked unmarked, token_unmarked, clause_unmarked unmarked]
  | _, unmarked, .block body => by rw [stmt, stmts_unmarked _ (cons_unmarked unmarked) body]
  | marks, unmarked, .if_ condition thenBranch none => by
    rw [stmt, expr_unmarked unmarked condition, stmt_unmarked marks unmarked thenBranch]
  | marks, unmarked, .if_ condition thenBranch (some elseBranch) => by
    rw [stmt, expr_unmarked unmarked condition, stmt_unmarked marks unmarked thenBranch,
      stmt_unmarked marks unmarked elseBranch]
  | marks, unmarked, .while_ condition body => by
    rw [stmt, expr_unmarked unmarked condition, stmt_unmarked marks unmarked body]
  | marks, unmarked, .function d => by rw [stmt, declaration_unmarked marks unmarked d]
  | _, unmarked, .return_ keyword value => by rw [stmt, clause_unmarked unmarked]
  | marks, unmarked, .class_ name clause methods => by
    rw [stmt, superclass_unmarked unmarked,
      declarations_unmarked _ (insideClass_unmarked clause unmarked) methods]

theorem stmts_unmarked : ∀ marks, (∀ b ∈ marks, b = false) → ∀ body, ρ.stmts marks body = body
  | _, _, [] => rfl
  | marks, unmarked, s :: rest => by
    rw [stmts, stmt_unmarked marks unmarked s, stmts_unmarked marks unmarked rest]

theorem declaration_unmarked : ∀ marks, (∀ b ∈ marks, b = false) → ∀ d,
    ρ.declaration false marks d = d
  | _, unmarked, ⟨name, ps, body⟩ => by
    rw [declaration, parameters_unmarked, stmts_unmarked _ (cons_unmarked unmarked) body]

theorem declarations_unmarked : ∀ marks, (∀ b ∈ marks, b = false) → ∀ ds,
    ρ.declarations marks ds = ds
  | _, _, [] => rfl
  | marks, unmarked, d :: rest => by
    rw [declarations, declaration_unmarked marks unmarked d, declarations_unmarked marks unmarked rest]

end

end Renaming
end LoxLang
