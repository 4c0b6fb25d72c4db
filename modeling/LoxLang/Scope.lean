import LoxLang.Error.Scope
import LoxLang.Stmt
import LoxLang.Table
import Std.Data.TreeMap

/-! Scopes: which declaration each reference of a program means, found without running it.
A walk over the program keeps the enclosing local scopes, and records for each reference how many
scopes lie between it and the scope that declares its name. A reference found in no scope is left
out: it means a global. The kind of body and class around a node is passed down, and faults that do
not end the walk are collected. -/
namespace LoxLang

/-- How far out each located reference is declared. -/
abbrev Depths := Std.TreeMap NodeId Nat

namespace Scope

/-- The body that a `return` would leave. -/
inductive Body where
  | function | method | initializer
  deriving DecidableEq, Repr

/-- The class that `this` and `super` would refer to. -/
inductive ClassKind where
  | plain | derived
  deriving DecidableEq, Repr

/-- What encloses a node. -/
structure Context where
  body : Option Body
  cls : Option ClassKind

/-- The context of top-level code. -/
def Context.top : Context := ⟨none, none⟩

structure State where
  /-- The local scopes, innermost first, with each name whether it may be read yet. -/
  scopes : List (Table Bool)
  depths : Depths
  reported : List ScopeError

def State.start : State := ⟨[], ∅, []⟩

/-- A part of the walk; it fails at a fault that ends the walk. -/
abbrev Walk := EStateM ScopeError State

def report (cause : ScopeError.Cause) (found : Token) : Walk Unit := fun s =>
  .ok () { s with reported := s.reported ++ [⟨cause, found⟩] }

/-- Gives a name a mark in the innermost scope; at the top level there is none. -/
def mark (name : String) (ready : Bool) : Walk Unit := fun s =>
  match s.scopes with
  | [] => .ok () s
  | scope :: outer => .ok () { s with scopes := scope.set name ready :: outer }

/-- Declares a name that may not be read yet. -/
def declare (name : Token) : Walk Unit := fun s =>
  match s.scopes with
  | [] => .ok () s
  | scope :: _ =>
    if scope.contains name.lexeme then .error ⟨.declaredTwice, name⟩ s
    else mark name.lexeme false s

/-- Declares a name that may be read at once. -/
def introduce (name : Token) : Walk Unit := do
  declare name
  mark name.lexeme true

/-- A part of the walk inside a new innermost scope. -/
def inside (walk : Walk Unit) : Walk Unit := do
  modify fun s => { s with scopes := [] :: s.scopes }
  walk
  modify fun s => { s with scopes := s.scopes.tail }

/-- Records the distance to the nearest scope that declares the name. -/
def locate (r : Reference) : Walk Unit := fun s =>
  match s.scopes.findIdx? (·.contains r.name.lexeme) with
  | some depth => .ok () { s with depths := s.depths.insert r.id depth }
  | none => .ok () s

/-- A variable is read: not in its own initializer. -/
def readVariable (r : Reference) : Walk Unit := do
  let s ← get
  if s.scopes.head?.bind (·.get? r.name.lexeme) = some false then
    throw ⟨.readInOwnInitializer, r.name⟩
  locate r

def readThis (context : Context) (r : Reference) : Walk Unit :=
  match context.cls with
  | none => report .thisOutsideClass r.name
  | some _ => locate r

def readSuper (context : Context) (r : Reference) : Walk Unit :=
  match context.cls with
  | none => report .superOutsideClass r.name
  | some .plain => report .superWithoutSuperclass r.name
  | some .derived => locate r

mutual

def walkExpr (context : Context) : Expr → Walk Unit
  | .literal _ => pure ()
  | .grouping inner => walkExpr context inner
  | .unary _ right => walkExpr context right
  | .binary left _ right => do
    walkExpr context left
    walkExpr context right
  | .logical left _ right => do
    walkExpr context left
    walkExpr context right
  | .conditional condition thenBranch elseBranch => do
    walkExpr context condition
    walkExpr context thenBranch
    walkExpr context elseBranch
  | .variable r => readVariable r
  | .assign r value => do
    walkExpr context value
    locate r
  | .call callee _ arguments => do
    walkExpr context callee
    walkExprs context arguments
  | .get object _ => walkExpr context object
  | .set object _ value => do
    walkExpr context value
    walkExpr context object
  | .this r => readThis context r
  | .super r _ => readSuper context r

def walkExprs (context : Context) : List Expr → Walk Unit
  | [] => pure ()
  | e :: rest => do
    walkExpr context e
    walkExprs context rest

end

def walkOptional (context : Context) : Option Expr → Walk Unit
  | none => pure ()
  | some e => walkExpr context e

def checkReturn (context : Context) (keyword : Token) (value : Option Expr) : Walk Unit := do
  if context.body = none then report .returnOutsideFunction keyword
  if context.body = some .initializer && value.isSome then report .valueFromInitializer keyword

/-- The superclass clause of the class called `name`. -/
def walkSuperclass (name : Token) : Option Reference → Walk Unit
  | none => pure ()
  | some r => do
    if r.name.lexeme = name.lexeme then report .inheritsFromItself r.name
    readVariable r

/-- The scopes around the methods of a class: `super` if there is a superclass, then `this`. -/
def insideClass (superclass : Option Reference) (walk : Walk Unit) : Walk Unit :=
  let withThis := inside do
    mark "this" true
    walk
  match superclass with
  | none => withThis
  | some _ => inside do
    mark "super" true
    withThis

def classContext (context : Context) (superclass : Option Reference) : Context :=
  { context with cls := some (if superclass.isSome then .derived else .plain) }

def methodBody (method : Declaration) : Body :=
  if method.name.lexeme = initializerName then .initializer else .method

def introduceAll : List Token → Walk Unit
  | [] => pure ()
  | name :: rest => do
    introduce name
    introduceAll rest

mutual

def walkStmt (context : Context) : Stmt → Walk Unit
  | .expression e => walkExpr context e
  | .print e => walkExpr context e
  | .var name initializer => do
    declare name
    walkOptional context initializer
    mark name.lexeme true
  | .block body => inside (walkStmts context body)
  | .if_ condition thenBranch none => do
    walkExpr context condition
    walkStmt context thenBranch
  | .if_ condition thenBranch (some elseBranch) => do
    walkExpr context condition
    walkStmt context thenBranch
    walkStmt context elseBranch
  | .while_ condition body => do
    walkExpr context condition
    walkStmt context body
  | .function declaration => do
    introduce declaration.name
    walkDeclaration context .function declaration
  | .return_ keyword value => do
    checkReturn context keyword value
    walkOptional context value
  | .class_ name superclass methods => do
    introduce name
    walkSuperclass name superclass
    insideClass superclass (walkMethods (classContext context superclass) methods)

def walkStmts (context : Context) : List Stmt → Walk Unit
  | [] => pure ()
  | s :: rest => do
    walkStmt context s
    walkStmts context rest

/-- The parameters and the body of a declaration share one scope. -/
def walkDeclaration (context : Context) (body : Body) : Declaration → Walk Unit
  | ⟨_, parameters, statements⟩ => inside do
    introduceAll parameters
    walkStmts { context with body := some body } statements

def walkMethods (context : Context) : List Declaration → Walk Unit
  | [] => pure ()
  | method :: rest => do
    walkDeclaration context (methodBody method) method
    walkMethods context rest

end

/-- What the walk over a whole program finds: the depths of its references and its faults. -/
def resolve (program : List Stmt) : Depths × List ScopeError :=
  match walkStmts .top program .start with
  | .ok _ s => (s.depths, s.reported)
  | .error e s => (s.depths, s.reported ++ [e])

end Scope
end LoxLang
