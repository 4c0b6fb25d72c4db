import LoxLang.Machine
import LoxLang.Operator

/-! Evaluation of expressions and execution of statements.
Every recursion spends one unit of fuel, so the definitions are structural; a part that runs out is
interrupted, which is not a fault of the program, and more fuel never changes the end of a part that
was not. -/
namespace LoxLang

/-- How a statement ends: normally, or by leaving the innermost call with a value. -/
inductive Completion where
  | normal
  | returned (v : Value)

namespace Eval

/-- The function, class or native function that is called, if the call passes its checks; `line` is where
its faults are reported. -/
def checkCall (callee : Value) (line : Nat) (arguments : List Value) : Eval Callable := do
  match callee.callable? with
  | none => fail .notCallable line
  | some f =>
    if arguments.length ≠ f.arity then
      fail (.wrongArgumentCount f.arity arguments.length) line
    else if maxActiveCalls ≤ (← get).activeCalls then fail .stackOverflow line
    else return f

mutual

def evaluate : Nat → Expr → Eval Value
  | 0, _ => exhausted
  | fuel + 1, e =>
    match e with
    | .literal l => return l.value
    | .grouping inner => evaluate fuel inner
    | .unary operator right => do ofExcept (Operator.unary operator (← evaluate fuel right))
    | .binary left operator right => do
      let a ← evaluate fuel left
      let b ← evaluate fuel right
      ofExcept (Operator.binary operator a b)
    | .logical left operator right => do
      let a ← evaluate fuel left
      if Operator.isDecidedBy operator a then return a else evaluate fuel right
    | .conditional condition thenBranch elseBranch => do
      let test ← evaluate fuel condition
      if test.isTruthy then evaluate fuel thenBranch else evaluate fuel elseBranch
    | .variable r => lookUp r
    | .assign r value => do
      let v ← evaluate fuel value
      assign r v
      return v
    | .call callee paren arguments => do
      let f ← evaluate fuel callee
      let values ← evaluateAll fuel arguments
      call fuel f paren.line values
    | .get object name => do
      match ← evaluate fuel object with
      | .instance_ i => property i name
      | _ => fail .propertyOfNonInstance name.line
    | .set object name value => do
      match ← evaluate fuel object with
      | .instance_ i =>
        let v ← evaluate fuel value
        setProperty i name v
        return v
      | _ => fail .fieldOfNonInstance name.line
    | .this r => lookUp r
    | .super r method => superMethod r method

/-- The values of expressions, from left to right. -/
def evaluateAll : Nat → List Expr → Eval (List Value)
  | 0, _ => exhausted
  | _ + 1, [] => return []
  | fuel + 1, e :: rest => do
    let v ← evaluate fuel e
    return v :: (← evaluateAll fuel rest)

/-- A call with evaluated arguments, checked first. -/
def call : Nat → Value → Nat → List Value → Eval Value
  | 0, _, _, _ => exhausted
  | fuel + 1, callee, line, arguments => do
    let f ← checkCall callee line arguments
    inCall (invoke fuel f arguments)

/-- The call itself. -/
def invoke : Nat → Callable → List Value → Eval Value
  | 0, _, _ => exhausted
  | fuel + 1, callee, arguments =>
    match callee with
    | .native .clock => readClock
    | .function f => callFunction fuel f arguments
    | .class_ c => do
      let i ← onStore fun s => s.newInstance c
      match c.findMethod? initializerName with
      | none => return .instance_ i
      | some method =>
        let bound ← onStore fun s => s.bindMethod method i
        let _ ← callFunction fuel bound arguments
        return .instance_ i

/-- Runs the body of a function in a new frame that binds its parameters. An initializer yields its
instance, however its body ends. -/
def callFunction : Nat → Function → List Value → Eval Value
  | 0, _, _ => exhausted
  | fuel + 1, f, arguments => do
    let names := f.declaration.parameters.map Token.lexeme
    let frame ← newFrame f.closure (.ofList (names.zip arguments))
    let completion ← inFrame frame (executeAll fuel f.declaration.body)
    if f.isInitializer then
      ofOption ((← get).store.getAt? 0 f.closure "this") (.undefinedVariable "this")
        f.declaration.name.line
    else
      match completion with
      | .returned v => return v
      | .normal => return .nil

def execute : Nat → Stmt → Eval Completion
  | 0, _ => exhausted
  | fuel + 1, s =>
    match s with
    | .expression e => do
      let _ ← evaluate fuel e
      return .normal
    | .print e => do
      print (← evaluate fuel e)
      return .normal
    | .var name none => do
      define name .nil
      return .normal
    | .var name (some e) => do
      define name (← evaluate fuel e)
      return .normal
    | .block body => do
      let frame ← newFrame (← currentFrame) []
      inFrame frame (executeAll fuel body)
    | .if_ condition thenBranch elseBranch => do
      let test ← evaluate fuel condition
      if test.isTruthy then execute fuel thenBranch
      else
        match elseBranch with
        | none => return .normal
        | some s => execute fuel s
    | .while_ condition body => loop fuel condition body
    | .function d => do
      defineFunction d
      return .normal
    | .return_ _ none => return .returned .nil
    | .return_ _ (some e) => do return .returned (← evaluate fuel e)
    | .class_ name clause methods => do
      defineClass name clause methods
      return .normal

/-- Executes statements up to the first that leaves the call. -/
def executeAll : Nat → List Stmt → Eval Completion
  | 0, _ => exhausted
  | _ + 1, [] => return .normal
  | fuel + 1, s :: rest => do
    match ← execute fuel s with
    | .normal => executeAll fuel rest
    | .returned v => return .returned v

/-- Repeats a body while a condition is true. -/
def loop : Nat → Expr → Stmt → Eval Completion
  | 0, _, _ => exhausted
  | fuel + 1, condition, body => do
    let test ← evaluate fuel condition
    if test.isTruthy then
      match ← execute fuel body with
      | .normal => loop fuel condition body
      | .returned v => return .returned v
    else return .normal

end

/-- Executes the statements of a program, whatever way each of them ends. -/
def interpret (fuel : Nat) : List Stmt → Eval Unit
  | [] => return ()
  | s :: rest => do
    let _ ← execute fuel s
    interpret fuel rest

/-- What one statement of a program printed, and how it ended. -/
structure Step where
  printed : ByteArray
  ended : Except Interruption Completion

/-- Executes each statement in turn, going on whatever way the ones before it ended. -/
def steps (fuel : Nat) : List Stmt → Machine → List Step
  | [], _ => []
  | s :: rest, m =>
    let before := m.output.written.size
    match execute fuel s m with
    | .ok c m => ⟨m.output.written.extract before m.output.written.size, .ok c⟩ :: steps fuel rest m
    | .error e m =>
      ⟨m.output.written.extract before m.output.written.size, .error e⟩ :: steps fuel rest m

end Eval
end LoxLang
