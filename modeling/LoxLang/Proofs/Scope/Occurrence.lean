import LoxLang.Proofs.Grammar.Tree
import LoxLang.Scope

/-! Lexical scope, read off the syntax tree. An occurrence is a reference together with the levels
around it: the blocks, functions and classes that it stands in, innermost first, each with the names
declared in it up to there. The name of a variable is declared but not ready in its initializer, and
so is the name of a class in its superclass clause. -/
namespace LoxLang.Scope

/-- A construct that opens a scope: a block, a function or method for its parameters and its body,
and a class, for `this` and for `super`, around its methods. -/
inductive Site where
  | block (body : List Stmt)
  | routine (d : Declaration)
  | receiver (methods : List Declaration)
  | parent (methods : List Declaration)

/-- The statement declares this name in the scope around it. -/
def Declares (name : String) (s : Stmt) : Prop := ∃ t, s.declared? = some t ∧ t.lexeme = name

/-- The construct declares this name in its scope. -/
def Site.Declares (name : String) : Site → Prop
  | .block body => ∃ s ∈ body, Scope.Declares name s
  | .routine ⟨_, parameters, body⟩ =>
    (∃ p ∈ parameters, p.lexeme = name) ∨ ∃ s ∈ body, Scope.Declares name s
  | .receiver _ => name = "this"
  | .parent _ => name = "super"

/-- A scope around a place in the program, with the names declared before that place. -/
structure Level where
  site : Site
  names : Table Bool

/-- Whether a name is ready is set in the innermost level. -/
def markIn (name : String) (ready : Bool) : List Level → List Level
  | [] => []
  | level :: outer => { level with names := level.names.set name ready } :: outer

/-- The levels behind a statement. -/
def behind (s : Stmt) (levels : List Level) : List Level :=
  match s.declared? with
  | none => levels
  | some name => markIn name.lexeme true levels

/-- The names of parameters, each ready. -/
def parameterNames (parameters : List Token) : Table Bool :=
  parameters.foldl (fun names p => names.set p.lexeme true) []

/-- The levels around the methods of a class: one for `super` if there is a superclass, and one for
`this`. -/
def classLevels (clause : Option Reference) (methods : List Declaration) (levels : List Level) :
    List Level :=
  let outer := match clause with
    | none => levels
    | some _ => ⟨.parent methods, [("super", true)]⟩ :: levels
  ⟨.receiver methods, [("this", true)]⟩ :: outer

inductive Use where
  | read | write | this | super
  deriving DecidableEq, Repr

structure Occurrence where
  use : Use
  reference : Reference
  levels : List Level

namespace Occurrence

def id (o : Occurrence) : Nat := o.reference.id

def name (o : Occurrence) : String := o.reference.name.lexeme

/-- How far out the nearest level is that declares the name. -/
def depth? (o : Occurrence) : Option Nat := o.levels.findIdx? (·.names.contains o.name)

end Occurrence

mutual

def exprOccurrences (levels : List Level) : Expr → List Occurrence
  | .literal _ => []
  | .grouping inner => exprOccurrences levels inner
  | .unary _ right => exprOccurrences levels right
  | .binary left _ right => exprOccurrences levels left ++ exprOccurrences levels right
  | .logical left _ right => exprOccurrences levels left ++ exprOccurrences levels right
  | .conditional condition thenBranch elseBranch =>
    exprOccurrences levels condition ++
      (exprOccurrences levels thenBranch ++ exprOccurrences levels elseBranch)
  | .variable r => [⟨.read, r, levels⟩]
  | .assign r value => exprOccurrences levels value ++ [⟨.write, r, levels⟩]
  | .call callee _ arguments => exprOccurrences levels callee ++ exprsOccurrences levels arguments
  | .get object _ => exprOccurrences levels object
  | .set object _ value => exprOccurrences levels value ++ exprOccurrences levels object
  | .this r => [⟨.this, r, levels⟩]
  | .super r _ => [⟨.super, r, levels⟩]

def exprsOccurrences (levels : List Level) : List Expr → List Occurrence
  | [] => []
  | e :: rest => exprOccurrences levels e ++ exprsOccurrences levels rest

end

def clauseOccurrences (levels : List Level) : Option Expr → List Occurrence
  | none => []
  | some e => exprOccurrences levels e

def superclassOccurrences (levels : List Level) : Option Reference → List Occurrence
  | none => []
  | some r => [⟨.read, r, levels⟩]

mutual

def stmtOccurrences (levels : List Level) : Stmt → List Occurrence
  | .expression e => exprOccurrences levels e
  | .print e => exprOccurrences levels e
  | .var name initializer => clauseOccurrences (markIn name.lexeme false levels) initializer
  | .block body => stmtsOccurrences (⟨.block body, []⟩ :: levels) body
  | .if_ condition thenBranch none =>
    exprOccurrences levels condition ++ stmtOccurrences levels thenBranch
  | .if_ condition thenBranch (some elseBranch) =>
    exprOccurrences levels condition ++
      (stmtOccurrences levels thenBranch ++ stmtOccurrences levels elseBranch)
  | .while_ condition body => exprOccurrences levels condition ++ stmtOccurrences levels body
  | .function d => declarationOccurrences (behind (.function d) levels) d
  | .return_ _ value => clauseOccurrences levels value
  | .class_ name clause methods =>
    superclassOccurrences (markIn name.lexeme false levels) clause ++
      methodsOccurrences (classLevels clause methods (behind (.class_ name clause methods) levels))
        methods

def stmtsOccurrences (levels : List Level) : List Stmt → List Occurrence
  | [] => []
  | s :: rest => stmtOccurrences levels s ++ stmtsOccurrences (behind s levels) rest

def declarationOccurrences (levels : List Level) : Declaration → List Occurrence
  | ⟨name, parameters, body⟩ => stmtsOccurrences
    (⟨.routine ⟨name, parameters, body⟩, parameterNames parameters⟩ :: levels) body

def methodsOccurrences (levels : List Level) : List Declaration → List Occurrence
  | [] => []
  | d :: rest => declarationOccurrences levels d ++ methodsOccurrences levels rest

end

/-- The occurrences of a whole program. -/
def occurrences (program : List Stmt) : List Occurrence := stmtsOccurrences [] program

theorem behind_nil (s : Stmt) : behind s [] = [] := by
  unfold behind
  split <;> rfl

theorem occurrences_append (program later : List Stmt) :
    occurrences (program ++ later) = occurrences program ++ occurrences later := by
  unfold occurrences
  induction program with
  | nil => rfl
  | cons s rest ih =>
    rw [List.cons_append, stmtsOccurrences, stmtsOccurrences, behind_nil, ih, List.append_assoc]

end LoxLang.Scope
