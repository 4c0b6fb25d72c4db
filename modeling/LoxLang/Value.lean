import LoxLang.Number
import LoxLang.Stmt
import LoxLang.Table

/-! Runtime values. Functions, classes and instances have identities, given out by the store
(`LoxLang.Store`), and are equal only to themselves; other values of one type are compared by
content, and values of different types are never equal. A class is fixed when it is made and holds
its superclass; what can change later, the fields of an instance, is in the store. -/
namespace LoxLang

structure FrameId where
  index : Nat
  deriving DecidableEq, Repr

structure FunctionId where
  index : Nat
  deriving DecidableEq, Repr

structure ClassId where
  index : Nat
  deriving DecidableEq, Repr

structure InstanceId where
  index : Nat
  deriving DecidableEq, Repr

/-- The functions that are not written in Lox. -/
inductive Native where
  | clock
  deriving DecidableEq, Repr

def Native.arity : Native → Nat
  | .clock => 0

/-- A declaration closed over the frame in which it was evaluated. -/
structure Function where
  id : FunctionId
  declaration : Declaration
  closure : FrameId
  isInitializer : Bool

def Function.name (f : Function) : String := f.declaration.name.lexeme

def Function.arity (f : Function) : Nat := f.declaration.parameters.length

structure Class where
  id : ClassId
  name : String
  superclass : Option Class
  methods : Table Function

/-- The method of this name in a class or, failing that, in the nearest superclass that has it. -/
def Class.findMethod? (c : Class) (name : String) : Option Function :=
  match c with
  | ⟨_, _, superclass, methods⟩ =>
    match methods.get? name with
    | some method => some method
    | none =>
      match superclass with
      | some parent => parent.findMethod? name
      | none => none

/-- A method of a class is one of its own, or a method of its superclass. -/
theorem Class.own_or_inherited {c : Class} {name : String} {method : Function}
    (found : c.findMethod? name = some method) :
    c.methods.get? name = some method ∨ ∃ parent ∈ c.superclass, parent.findMethod? name = some method := by
  obtain ⟨_, _, superclass, methods⟩ := c
  rw [Class.findMethod?.eq_def] at found
  dsimp only at found
  split at found
  · next got => exact .inl (got.trans found)
  · cases superclass with
    | none => cases found
    | some parent => exact .inr ⟨parent, rfl, found⟩

/-- A class takes the arguments of its initializer. -/
def Class.arity (c : Class) : Nat := ((c.findMethod? initializerName).map Function.arity).getD 0

structure Instance where
  id : InstanceId
  cls : Class

inductive Value where
  | nil
  | boolean (b : Bool)
  | number (x : Float)
  | string (s : String)
  | native (f : Native)
  | function (f : Function)
  | class_ (c : Class)
  | instance_ (i : Instance)

/-- What can be called. -/
inductive Callable where
  | native (f : Native)
  | function (f : Function)
  | class_ (c : Class)

def Callable.arity : Callable → Nat
  | .native f => f.arity
  | .function f => f.arity
  | .class_ c => c.arity

def Literal.value : Literal → Value
  | .number x => .number x
  | .string s => .string s
  | .boolean b => .boolean b
  | .nil => .nil

namespace Value

def callable? : Value → Option Callable
  | .native f => some (.native f)
  | .function f => some (.function f)
  | .class_ c => some (.class_ c)
  | _ => none

/-- All values but `nil` and `false` count as true. -/
def isTruthy : Value → Bool
  | .nil | .boolean false => false
  | _ => true

def equals : Value → Value → Bool
  | .nil, .nil => true
  | .boolean a, .boolean b => a == b
  | .number a, .number b => a == b
  | .string a, .string b => a == b
  | .native a, .native b => a = b
  | .function a, .function b => a.id = b.id
  | .class_ a, .class_ b => a.id = b.id
  | .instance_ a, .instance_ b => a.id = b.id
  | _, _ => false

/-- The text of a value, as `print` shows it and `+` joins it. -/
def display : Value → String
  | .nil => "nil"
  | .boolean true => "true"
  | .boolean false => "false"
  | .number x => Number.display x
  | .string s => s
  | .native _ => "<native fn>"
  | .function f => "<fn " ++ f.name ++ ">"
  | .class_ c => "<class " ++ c.name ++ ">"
  | .instance_ i => "<instance " ++ i.cls.name ++ ">"

def typeName : Value → String
  | .nil => "nil"
  | .boolean _ => "bool"
  | .number _ => "number"
  | .string _ => "string"
  | .native _ => "native"
  | .function _ => "function"
  | .class_ _ => "class"
  | .instance_ _ => "instance"

end Value
end LoxLang
