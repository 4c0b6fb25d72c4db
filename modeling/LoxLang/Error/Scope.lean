import LoxLang.Error.Grammar

/-! Faults of a parsed program against the rules of scope and context. The first two end the
check of a program; after the others it goes on. -/
namespace LoxLang

inductive ScopeError.Cause where
  | declaredTwice
  | readInOwnInitializer
  | returnOutsideFunction
  | valueFromInitializer
  | inheritsFromItself
  | thisOutsideClass
  | superOutsideClass
  | superWithoutSuperclass
  deriving DecidableEq, Repr

/-- A fault, and the name or keyword it concerns. -/
structure ScopeError where
  cause : ScopeError.Cause
  found : Token
  deriving DecidableEq

namespace ScopeError

def Cause.message : Cause → String
  | .declaredTwice => "Variable with this name already declared in this scope."
  | .readInOwnInitializer => "Cannot read local variable in its own initializer."
  | .returnOutsideFunction => "Cannot return from top-level code."
  | .valueFromInitializer => "Cannot return a value from an initializer."
  | .inheritsFromItself => "A class can't inherit from itself."
  | .thisOutsideClass => "Cannot use 'this' outside of a class."
  | .superOutsideClass => "Cannot use 'super' outside of a class."
  | .superWithoutSuperclass => "Can't use 'super' in a class with no superclass."

def text (e : ScopeError) : String := e.found.report e.cause.message

end ScopeError
end LoxLang
