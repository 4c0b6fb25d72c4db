import LoxLang.Scope

/-! What makes a program statically valid, place by place. A place is a statement together with the
blocks, functions and methods around it, the innermost first; each of these opens a scope, and at the
top level there is none. What a place must satisfy is said in terms of its statement and of what
encloses it, without any walk over the program. A branch of an `if` and the body of a loop open no
scope, so whatever is declared there is declared in the scope around them. -/
namespace LoxLang

mutual

/-- The expression and all expressions in it. -/
def Expr.parts : Expr → List Expr
  | .literal l => [.literal l]
  | .grouping inner => .grouping inner :: inner.parts
  | .unary operator right => .unary operator right :: right.parts
  | .binary left operator right => .binary left operator right :: (left.parts ++ right.parts)
  | .logical left operator right => .logical left operator right :: (left.parts ++ right.parts)
  | .conditional condition thenBranch elseBranch =>
    .conditional condition thenBranch elseBranch ::
      (condition.parts ++ (thenBranch.parts ++ elseBranch.parts))
  | .variable r => [.variable r]
  | .assign r value => .assign r value :: value.parts
  | .call callee paren arguments =>
    .call callee paren arguments :: (callee.parts ++ Expr.partsOf arguments)
  | .get object name => .get object name :: object.parts
  | .set object name value => .set object name value :: (value.parts ++ object.parts)
  | .this r => [.this r]
  | .super r method => [.super r method]

def Expr.partsOf : List Expr → List Expr
  | [] => []
  | e :: rest => e.parts ++ Expr.partsOf rest

end

namespace Stmt

/-- The expressions of the statement itself, not of statements in it. -/
def operands : Stmt → List Expr
  | .expression e | .print e | .if_ e _ _ | .while_ e _ => [e]
  | .var _ e | .return_ _ e => e.toList
  | .block _ | .function _ | .class_ _ _ _ => []

/-- The names that a statement declares in the scope around it. -/
def declarations : Stmt → List Token
  | .var name _ => [name]
  | .function ⟨name, _, _⟩ => [name]
  | .class_ name _ _ => [name]
  | .if_ _ thenBranch none => thenBranch.declarations
  | .if_ _ thenBranch (some elseBranch) => thenBranch.declarations ++ elseBranch.declarations
  | .while_ _ body => body.declarations
  | .expression _ | .print _ | .block _ | .return_ _ _ => []

end Stmt

/-- The names that a function or method declares in its scope: those of its parameters, and those of
the top level of its body. -/
def Declaration.declarations (d : Declaration) : List Token :=
  d.parameters ++ d.body.flatMap Stmt.declarations

/-- What is declared directly in each of the scopes that a statement opens. -/
def Stmt.opened : Stmt → List (List Token)
  | .block body => [body.flatMap Stmt.declarations]
  | .function d => [d.declarations]
  | .class_ _ _ methods => methods.map Declaration.declarations
  | _ => []

namespace Scope

/-- A construct that opens a scope for statements. A method is given with the superclass clause of
its class. -/
inductive Encloser where
  | block
  | function
  | method (name : Token) (clause : Option Reference)

namespace Encloser

def isRoutine : Encloser → Bool
  | .block => false
  | .function | .method _ _ => true

def isMethod : Encloser → Bool
  | .block | .function => false
  | .method _ _ => true

def isInitializer : Encloser → Bool
  | .block | .function => false
  | .method name _ => name.lexeme = initializerName

/-- A method of a class that has a superclass clause. -/
def inherits : Encloser → Bool
  | .block | .function => false
  | .method _ clause => clause.isSome

end Encloser

/-- A statement and what encloses it, innermost first. -/
structure Place where
  path : List Encloser
  stmt : Stmt

mutual

/-- The place of a statement and those of all statements in it. -/
def stmtPlaces (path : List Encloser) : Stmt → List Place
  | .expression e => [⟨path, .expression e⟩]
  | .print e => [⟨path, .print e⟩]
  | .var name initializer => [⟨path, .var name initializer⟩]
  | .block body => ⟨path, .block body⟩ :: stmtsPlaces (.block :: path) body
  | .if_ condition thenBranch none =>
    ⟨path, .if_ condition thenBranch none⟩ :: stmtPlaces path thenBranch
  | .if_ condition thenBranch (some elseBranch) =>
    ⟨path, .if_ condition thenBranch (some elseBranch)⟩ ::
      (stmtPlaces path thenBranch ++ stmtPlaces path elseBranch)
  | .while_ condition body => ⟨path, .while_ condition body⟩ :: stmtPlaces path body
  | .function ⟨name, parameters, body⟩ =>
    ⟨path, .function ⟨name, parameters, body⟩⟩ :: stmtsPlaces (.function :: path) body
  | .return_ keyword value => [⟨path, .return_ keyword value⟩]
  | .class_ name clause methods =>
    ⟨path, .class_ name clause methods⟩ :: methodsPlaces path clause methods

def stmtsPlaces (path : List Encloser) : List Stmt → List Place
  | [] => []
  | s :: rest => stmtPlaces path s ++ stmtsPlaces path rest

def methodsPlaces (path : List Encloser) (clause : Option Reference) : List Declaration → List Place
  | [] => []
  | ⟨name, _, body⟩ :: rest =>
    stmtsPlaces (.method name clause :: path) body ++ methodsPlaces path clause rest

end

/-- What the statement at a place must satisfy. -/
structure Place.Valid (place : Place) : Prop where
  /-- No name is declared twice directly in one of the scopes that it opens. -/
  declaredOnce : ∀ names ∈ place.stmt.opened, (names.map Token.lexeme).Nodup
  /-- The initializer of a local variable does not read the variable. -/
  initialized : ∀ name e, place.stmt = .var name (some e) → place.path ≠ [] →
    ∀ r, .variable r ∈ e.parts → r.name.lexeme ≠ name.lexeme
  /-- A `return` leaves a function or method; with a value, it does not leave an initializer. -/
  returned : ∀ keyword value, place.stmt = .return_ keyword value →
    ∃ routine, place.path.find? Encloser.isRoutine = some routine ∧
      (value.isSome → ¬ routine.isInitializer)
  /-- `this` stands in a method. -/
  received : ∀ e ∈ place.stmt.operands, ∀ r, .this r ∈ e.parts →
    ∃ method ∈ place.path, method.isMethod
  /-- `super` stands in a method; the class of the innermost one has a superclass clause. -/
  inherited : ∀ e ∈ place.stmt.operands, ∀ r name, .super r name ∈ e.parts →
    ∃ method, place.path.find? Encloser.isMethod = some method ∧ method.inherits
  /-- A class does not name itself as its superclass. -/
  derived : ∀ name r methods, place.stmt = .class_ name (some r) methods →
    r.name.lexeme ≠ name.lexeme

/-- A statically valid program. -/
def Valid (program : List Stmt) : Prop := ∀ place ∈ stmtsPlaces [] program, place.Valid

end Scope
end LoxLang
