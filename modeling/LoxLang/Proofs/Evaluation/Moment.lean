import LoxLang.Evaluation

/-! Moments of a run: which part of the evaluator is entered, with how much fuel and on which
machine. A moment enters the parts that the evaluator starts from it, in the machine that the parts
before them left; what a run reaches is what can be entered from its statements. Everything here
restates the recursion of the evaluator and nothing of what its parts compute. -/
namespace LoxLang.Eval

/-- The parts of the evaluator. -/
inductive Task where
  | evaluate (e : Expr)
  | evaluateAll (es : List Expr)
  | call (callee : Value) (line : Nat) (arguments : List Value)
  | invoke (callee : Callable) (arguments : List Value)
  | callFunction (f : Function) (arguments : List Value)
  | execute (s : Stmt)
  | executeAll (body : List Stmt)
  | loop (condition : Expr) (body : Stmt)

/-- A part about to run. -/
structure Moment where
  fuel : Nat
  task : Task
  machine : Machine

/-- The machine at the start of a function's body: the parameters are bound in a new frame. -/
def bodyEntered (f : Function) (arguments : List Value) (m : Machine) : Machine :=
  let names := f.declaration.parameters.map Token.lexeme
  let (frame, store) := m.store.newFrame (some f.closure) (.ofList (names.zip arguments))
  { m with store, current := frame }

/-- The machine at the start of a block. -/
def blockEntered (m : Machine) : Machine :=
  let (frame, store) := m.store.newFrame (some m.current) []
  { m with store, current := frame }

/-- The first moment starts the second one. -/
inductive Enters : Moment → Moment → Prop
  | grouping {fuel m inner} : Enters ⟨fuel + 1, .evaluate (.grouping inner), m⟩ ⟨fuel, .evaluate inner, m⟩
  | unary {fuel m operator right} :
    Enters ⟨fuel + 1, .evaluate (.unary operator right), m⟩ ⟨fuel, .evaluate right, m⟩
  | binaryLeft {fuel m left operator right} :
    Enters ⟨fuel + 1, .evaluate (.binary left operator right), m⟩ ⟨fuel, .evaluate left, m⟩
  | binaryRight {fuel m left operator right a next} (first : evaluate fuel left m = .ok a next) :
    Enters ⟨fuel + 1, .evaluate (.binary left operator right), m⟩ ⟨fuel, .evaluate right, next⟩
  | logicalLeft {fuel m left operator right} :
    Enters ⟨fuel + 1, .evaluate (.logical left operator right), m⟩ ⟨fuel, .evaluate left, m⟩
  | logicalRight {fuel m left operator right a next} (first : evaluate fuel left m = .ok a next)
    (undecided : ¬ Operator.isDecidedBy operator a) :
    Enters ⟨fuel + 1, .evaluate (.logical left operator right), m⟩ ⟨fuel, .evaluate right, next⟩
  | condition {fuel m test thenBranch elseBranch} :
    Enters ⟨fuel + 1, .evaluate (.conditional test thenBranch elseBranch), m⟩ ⟨fuel, .evaluate test, m⟩
  | thenValue {fuel m test thenBranch elseBranch a next} (first : evaluate fuel test m = .ok a next)
    (truthy : a.isTruthy) :
    Enters ⟨fuel + 1, .evaluate (.conditional test thenBranch elseBranch), m⟩
      ⟨fuel, .evaluate thenBranch, next⟩
  | elseValue {fuel m test thenBranch elseBranch a next} (first : evaluate fuel test m = .ok a next)
    (falsy : ¬ a.isTruthy) :
    Enters ⟨fuel + 1, .evaluate (.conditional test thenBranch elseBranch), m⟩
      ⟨fuel, .evaluate elseBranch, next⟩
  | assigned {fuel m r value} :
    Enters ⟨fuel + 1, .evaluate (.assign r value), m⟩ ⟨fuel, .evaluate value, m⟩
  | callee {fuel m function paren arguments} :
    Enters ⟨fuel + 1, .evaluate (.call function paren arguments), m⟩ ⟨fuel, .evaluate function, m⟩
  | arguments {fuel m function paren arguments f next} (first : evaluate fuel function m = .ok f next) :
    Enters ⟨fuel + 1, .evaluate (.call function paren arguments), m⟩
      ⟨fuel, .evaluateAll arguments, next⟩
  | called {fuel m function paren arguments f values next last}
    (first : evaluate fuel function m = .ok f next)
    (rest : evaluateAll fuel arguments next = .ok values last) :
    Enters ⟨fuel + 1, .evaluate (.call function paren arguments), m⟩
      ⟨fuel, .call f paren.line values, last⟩
  | getObject {fuel m object name} :
    Enters ⟨fuel + 1, .evaluate (.get object name), m⟩ ⟨fuel, .evaluate object, m⟩
  | setObject {fuel m object name value} :
    Enters ⟨fuel + 1, .evaluate (.set object name value), m⟩ ⟨fuel, .evaluate object, m⟩
  | setValue {fuel m object name value i next} (first : evaluate fuel object m = .ok (.instance_ i) next) :
    Enters ⟨fuel + 1, .evaluate (.set object name value), m⟩ ⟨fuel, .evaluate value, next⟩
  | firstValue {fuel m e rest} :
    Enters ⟨fuel + 1, .evaluateAll (e :: rest), m⟩ ⟨fuel, .evaluate e, m⟩
  | laterValues {fuel m e rest v next} (first : evaluate fuel e m = .ok v next) :
    Enters ⟨fuel + 1, .evaluateAll (e :: rest), m⟩ ⟨fuel, .evaluateAll rest, next⟩
  | invoked {fuel m callee line arguments f} (checked : checkCall callee line arguments m = .ok f m) :
    Enters ⟨fuel + 1, .call callee line arguments, m⟩
      ⟨fuel, .invoke f arguments, { m with activeCalls := m.activeCalls + 1 }⟩
  | function {fuel m f arguments} :
    Enters ⟨fuel + 1, .invoke (.function f) arguments, m⟩ ⟨fuel, .callFunction f arguments, m⟩
  | initializer {fuel m c arguments method i bound made after}
    (found : c.findMethod? initializerName = some method)
    (fresh : m.store.newInstance c = (i, made)) (bind : made.bindMethod method i = (bound, after)) :
    Enters ⟨fuel + 1, .invoke (.class_ c) arguments, m⟩
      ⟨fuel, .callFunction bound arguments, { m with store := after }⟩
  | functionBody {fuel m f arguments} :
    Enters ⟨fuel + 1, .callFunction f arguments, m⟩
      ⟨fuel, .executeAll f.declaration.body, bodyEntered f arguments m⟩
  | expression {fuel m e} : Enters ⟨fuel + 1, .execute (.expression e), m⟩ ⟨fuel, .evaluate e, m⟩
  | printed {fuel m e} : Enters ⟨fuel + 1, .execute (.print e), m⟩ ⟨fuel, .evaluate e, m⟩
  | variable {fuel m name e} :
    Enters ⟨fuel + 1, .execute (.var name (some e)), m⟩ ⟨fuel, .evaluate e, m⟩
  | block {fuel m body} :
    Enters ⟨fuel + 1, .execute (.block body), m⟩ ⟨fuel, .executeAll body, blockEntered m⟩
  | test {fuel m condition thenBranch elseBranch} :
    Enters ⟨fuel + 1, .execute (.if_ condition thenBranch elseBranch), m⟩ ⟨fuel, .evaluate condition, m⟩
  | thenBranch {fuel m condition thenBranch elseBranch a next}
    (first : evaluate fuel condition m = .ok a next) (truthy : a.isTruthy) :
    Enters ⟨fuel + 1, .execute (.if_ condition thenBranch elseBranch), m⟩ ⟨fuel, .execute thenBranch, next⟩
  | elseBranch {fuel m condition thenBranch elseBranch a next}
    (first : evaluate fuel condition m = .ok a next) (falsy : ¬ a.isTruthy) :
    Enters ⟨fuel + 1, .execute (.if_ condition thenBranch (some elseBranch)), m⟩
      ⟨fuel, .execute elseBranch, next⟩
  | loop {fuel m condition body} :
    Enters ⟨fuel + 1, .execute (.while_ condition body), m⟩ ⟨fuel, .loop condition body, m⟩
  | returned {fuel m keyword e} :
    Enters ⟨fuel + 1, .execute (.return_ keyword (some e)), m⟩ ⟨fuel, .evaluate e, m⟩
  | firstStatement {fuel m s rest} :
    Enters ⟨fuel + 1, .executeAll (s :: rest), m⟩ ⟨fuel, .execute s, m⟩
  | laterStatements {fuel m s rest next} (first : execute fuel s m = .ok .normal next) :
    Enters ⟨fuel + 1, .executeAll (s :: rest), m⟩ ⟨fuel, .executeAll rest, next⟩
  | round {fuel m condition body} :
    Enters ⟨fuel + 1, .loop condition body, m⟩ ⟨fuel, .evaluate condition, m⟩
  | roundBody {fuel m condition body a next} (first : evaluate fuel condition m = .ok a next)
    (truthy : a.isTruthy) :
    Enters ⟨fuel + 1, .loop condition body, m⟩ ⟨fuel, .execute body, next⟩
  | laterRounds {fuel m condition body a next last} (first : evaluate fuel condition m = .ok a next)
    (truthy : a.isTruthy) (rest : execute fuel body next = .ok .normal last) :
    Enters ⟨fuel + 1, .loop condition body, m⟩ ⟨fuel, .loop condition body, last⟩

end LoxLang.Eval
