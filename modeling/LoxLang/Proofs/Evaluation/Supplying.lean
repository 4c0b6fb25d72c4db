import LoxLang.Proofs.Evaluation.Proper
import LoxLang.Proofs.Evaluation.Super

/-! Proper code supplies proper values. Whatever is evaluated, called or executed, it stops for no unknown
operator, and the values that it gives or stores are such that the code behind them is proper too; the fuel is
what the induction is on. With that no run of a program that was read meets an operator that is none, and none
calls a function with too few or too many arguments. -/
namespace LoxLang.Eval
open Scope

/-- Parts that consist of proper code, or call proper values, supply proper values with this much fuel. -/
structure AllSupply (fuel : Nat) : Prop where
  evaluate : ∀ e, (∀ part ∈ e.parts, part.Proper) → Supplies (evaluate fuel e) Value.Proper
  evaluateAll : ∀ es, (∀ part ∈ Expr.partsOf es, part.Proper) →
    Supplies (evaluateAll fuel es) fun values => ∀ v ∈ values, v.Proper
  call : ∀ callee line arguments, callee.Proper → (∀ v ∈ arguments, v.Proper) →
    Supplies (call fuel callee line arguments) Value.Proper
  invoke : ∀ callee arguments, callee.Proper → (∀ v ∈ arguments, v.Proper) →
    Supplies (invoke fuel callee arguments) Value.Proper
  callFunction : ∀ f arguments, f.declaration.Proper → (∀ v ∈ arguments, v.Proper) →
    Supplies (callFunction fuel f arguments) Value.Proper
  execute : ∀ path s, (∀ place ∈ stmtPlaces path s, place.Proper) →
    Supplies (execute fuel s) Completion.Proper
  executeAll : ∀ path body, (∀ place ∈ stmtsPlaces path body, place.Proper) →
    Supplies (executeAll fuel body) Completion.Proper
  loop : ∀ path condition body, (∀ part ∈ condition.parts, part.Proper) →
    (∀ place ∈ stmtPlaces path body, place.Proper) → Supplies (loop fuel condition body) Completion.Proper

namespace AllSupply

variable {fuel : Nat} (all : AllSupply fuel)
include all

theorem evaluate_succ (e : Expr) (proper : ∀ part ∈ e.parts, part.Proper) :
    Supplies (Eval.evaluate (fuel + 1) e) Value.Proper := by
  rw [evaluate.eq_def]
  cases e with
  | literal l => cases l <;> exact .pure trivial
  | grouping inner => exact all.evaluate inner (List.forall_mem_cons.mp proper).2
  | unary operator right =>
    obtain ⟨listed, proper⟩ := List.forall_mem_cons.mp proper
    exact (all.evaluate right proper).bind fun v _ => .ofExcept (Operator.unary_known listed)
  | binary left operator right =>
    obtain ⟨listed, proper⟩ := List.forall_mem_cons.mp proper
    obtain ⟨first, second⟩ := List.forall_mem_append.mp proper
    apply (all.evaluate left first).bind
    intro a _
    exact (all.evaluate right second).bind fun b _ => .ofExcept (Operator.binary_known listed)
  | logical left operator right =>
    obtain ⟨first, second⟩ := List.forall_mem_append.mp (List.forall_mem_cons.mp proper).2
    apply (all.evaluate left first).bind
    intro a value
    split
    · exact .pure value
    · exact all.evaluate right second
  | conditional condition thenBranch elseBranch =>
    obtain ⟨test, branches⟩ := List.forall_mem_append.mp (List.forall_mem_cons.mp proper).2
    obtain ⟨first, second⟩ := List.forall_mem_append.mp branches
    apply (all.evaluate condition test).bind
    intro a _
    split
    · exact all.evaluate thenBranch first
    · exact all.evaluate elseBranch second
  | «variable» r => exact .lookUp r
  | assign r value =>
    apply (all.evaluate value (List.forall_mem_cons.mp proper).2).bind
    intro v value
    exact (Supplies.assign value).bind fun _ _ => .pure value
  | call callee paren arguments =>
    obtain ⟨first, others⟩ := List.forall_mem_append.mp (List.forall_mem_cons.mp proper).2
    apply (all.evaluate callee first).bind
    intro f callable
    exact (all.evaluateAll arguments others).bind fun values proper => all.call f _ values callable proper
  | get object name =>
    apply (all.evaluate object (List.forall_mem_cons.mp proper).2).bind
    intro v value
    cases v with
    | instance_ i => exact .property value
    | _ => exact .fail id
  | set object name value =>
    -- the object is evaluated first, though it is the second of the parts
    obtain ⟨second, first⟩ := List.forall_mem_append.mp (List.forall_mem_cons.mp proper).2
    apply (all.evaluate object first).bind
    intro v _
    cases v with
    | instance_ i =>
      apply (all.evaluate value second).bind
      intro v value
      have stored : Supplies (setProperty i name v) fun _ => True :=
        fun m proper => ⟨proper.setField i name.lexeme value, trivial⟩
      exact stored.bind fun _ _ => .pure value
    | _ => exact .fail id
  | this r => exact .lookUp r
  | super r method => exact .superMethod

theorem evaluateAll_succ (es : List Expr) (proper : ∀ part ∈ Expr.partsOf es, part.Proper) :
    Supplies (Eval.evaluateAll (fuel + 1) es) fun values => ∀ v ∈ values, v.Proper := by
  cases es with
  | nil => exact .pure nofun
  | cons e rest =>
    obtain ⟨first, others⟩ := List.forall_mem_append.mp proper
    apply (all.evaluate e first).bind
    intro v value
    exact (all.evaluateAll rest others).bind fun values later => .pure (List.forall_mem_cons.mpr ⟨value, later⟩)

theorem call_succ (callee : Value) (line : Nat) (arguments : List Value) (proper : callee.Proper)
    (values : ∀ v ∈ arguments, v.Proper) :
    Supplies (Eval.call (fuel + 1) callee line arguments) Value.Proper := by
  apply (Supplies.checkCall proper).bind
  intro f callable
  exact .inCall (all.invoke f arguments callable values)

theorem invoke_succ (callee : Callable) (arguments : List Value) (proper : callee.Proper)
    (values : ∀ v ∈ arguments, v.Proper) : Supplies (Eval.invoke (fuel + 1) callee arguments) Value.Proper := by
  cases callee with
  | native f => exact fun m kept => ⟨kept, trivial⟩
  | function f => exact all.callFunction f arguments proper values
  | class_ c =>
    have cls : c.Proper := proper
    have made : Supplies (onStore fun s => s.newInstance c) fun i => i.cls.Proper :=
      .onStore fun s kept => ⟨kept.newInstance c, cls⟩
    apply made.bind
    intro i instanceProper
    split
    · exact .pure instanceProper
    · next method found =>
      apply (Supplies.bindMethod (cls _ _ found) instanceProper).bind
      intro bound declared
      exact (all.callFunction bound arguments declared values).bind fun _ _ => .pure instanceProper

theorem callFunction_succ (f : Function) (arguments : List Value) (proper : f.declaration.Proper)
    (values : ∀ v ∈ arguments, v.Proper) :
    Supplies (Eval.callFunction (fuel + 1) f arguments) Value.Proper := by
  obtain ⟨path, places⟩ := proper
  let names := f.declaration.parameters.map Token.lexeme
  have framed : Supplies (newFrame f.closure (.ofList (names.zip arguments))) fun _ => True := by
    refine .onStore fun s kept => ⟨kept.newFrame _ fun name v found => ?_, trivial⟩
    exact values v (List.of_mem_zip (Table.mem_of_get?_ofList found)).2
  apply framed.bind
  intro frame _
  apply (Supplies.inFrame (all.executeAll path f.declaration.body places)).bind
  intro completion complete
  split
  · apply Supplies.get.bind
    intro m kept
    refine .ofOption id fun v found => ?_
    obtain ⟨holder, held⟩ := Store.read_of_getAt? found
    exact kept.bound _ _ _ held
  · cases completion with
    | returned v => exact .pure complete
    | normal => exact .pure trivial

theorem execute_succ (path : List Encloser) (s : Stmt) (proper : ∀ place ∈ stmtPlaces path s, place.Proper) :
    Supplies (Eval.execute (fuel + 1) s) Completion.Proper := by
  have own := (proper _ (self_mem_stmtPlaces path s)).operands
  rw [execute.eq_def]
  cases s with
  | expression e => exact (all.evaluate e (own e List.mem_cons_self)).bind fun _ _ => .pure trivial
  | print e =>
    apply (all.evaluate e (own e List.mem_cons_self)).bind
    intro v _
    exact (Supplies.print v).bind fun _ _ => .pure trivial
  | var name initializer =>
    cases initializer with
    | none => exact (Supplies.define (v := .nil) trivial).bind fun _ _ => .pure trivial
    | some e =>
      apply (all.evaluate e (own e List.mem_cons_self)).bind
      intro v value
      exact (Supplies.define value).bind fun _ _ => .pure trivial
  | block body =>
    apply Supplies.currentFrame.bind
    intro outer _
    have framed : Supplies (newFrame outer []) fun _ => True :=
      .onStore fun s kept => ⟨kept.newFrame _ fun _ v found => absurd found (Option.some_ne_none v).symm, trivial⟩
    exact framed.bind fun frame _ => .inFrame (all.executeAll _ body (List.forall_mem_cons.mp proper).2)
  | if_ condition thenBranch elseBranch =>
    apply (all.evaluate condition (own condition List.mem_cons_self)).bind
    intro v _
    cases elseBranch with
    | none =>
      split
      · exact all.execute path thenBranch (List.forall_mem_cons.mp proper).2
      · exact .pure trivial
    | some elseBranch =>
      obtain ⟨first, second⟩ := List.forall_mem_append.mp (List.forall_mem_cons.mp proper).2
      split
      · exact all.execute path thenBranch first
      · exact all.execute path elseBranch second
  | while_ condition body =>
    exact all.loop path condition body (own condition List.mem_cons_self) (List.forall_mem_cons.mp proper).2
  | function d =>
    obtain ⟨name, parameters, body⟩ := d
    have declared : Declaration.Proper ⟨name, parameters, body⟩ := ⟨_, (List.forall_mem_cons.mp proper).2⟩
    exact (Supplies.defineFunction declared).bind fun _ _ => .pure trivial
  | return_ keyword value =>
    cases value with
    | none => exact .pure trivial
    | some e => exact (all.evaluate e (own e List.mem_cons_self)).bind fun v value => .pure value
  | class_ name clause methods =>
    have declared : ∀ d ∈ methods, d.Proper :=
      fun d member => Declaration.proper_of_mem (List.forall_mem_cons.mp proper).2 member
    exact (Supplies.defineClass declared).bind fun _ _ => .pure trivial

theorem executeAll_succ (path : List Encloser) (body : List Stmt)
    (proper : ∀ place ∈ stmtsPlaces path body, place.Proper) :
    Supplies (Eval.executeAll (fuel + 1) body) Completion.Proper := by
  cases body with
  | nil => exact .pure trivial
  | cons s rest =>
    obtain ⟨first, others⟩ := List.forall_mem_append.mp proper
    apply (all.execute path s first).bind
    intro c complete
    cases c with
    | normal => exact all.executeAll path rest others
    | returned v => exact .pure complete

theorem loop_succ (path : List Encloser) (condition : Expr) (body : Stmt)
    (test : ∀ part ∈ condition.parts, part.Proper) (proper : ∀ place ∈ stmtPlaces path body, place.Proper) :
    Supplies (Eval.loop (fuel + 1) condition body) Completion.Proper := by
  apply (all.evaluate condition test).bind
  intro v _
  split
  · apply (all.execute path body proper).bind
    intro c complete
    cases c with
    | normal => exact all.loop path condition body test proper
    | returned v => exact .pure complete
  · exact .pure trivial

end AllSupply

theorem allSupply (fuel : Nat) : AllSupply fuel := by
  induction fuel with
  | zero => constructor <;> intros <;> exact .exhausted
  | succ fuel ih =>
    exact ⟨ih.evaluate_succ, ih.evaluateAll_succ, ih.call_succ, ih.invoke_succ, ih.callFunction_succ,
      ih.execute_succ, ih.executeAll_succ, ih.loop_succ⟩

/-- The statements of a program stop for no unknown operator. -/
theorem interpret_supplies (fuel : Nat) {path : List Encloser} {program : List Stmt}
    (proper : ∀ place ∈ stmtsPlaces path program, place.Proper) :
    Supplies (interpret fuel program) fun _ => True := by
  induction program with
  | nil => exact .pure trivial
  | cons s rest ih =>
    obtain ⟨first, others⟩ := List.forall_mem_append.mp proper
    exact ((allSupply fuel).execute path s first).bind fun _ _ => ih others

/-! ### Arguments -/

/-- What is called gets as many arguments as it takes. -/
def Task.Counted : Task → Prop
  | .invoke callee arguments => arguments.length = callee.arity
  | .callFunction f arguments => arguments.length = f.declaration.parameters.length
  | _ => True

/-- The arguments are counted where a call starts. A class takes those of its initializer, its own or the one
that it inherits, and that is the method that is bound and called. -/
theorem Enters.counted {outer inner : Moment} (enters : Enters outer inner) (counted : outer.task.Counted) :
    inner.task.Counted := by
  cases enters with
  | invoked checked => exact (checkCall_eq_ok_iff.mp checked).2.1
  | function => exact counted
  | @initializer _ _ c arguments method _ _ _ _ found _ bind =>
    cases bind
    have arity : c.arity = method.arity := Run.arity_of_initializer found
    have given : arguments.length = c.arity := counted
    exact given.trans arity
  | _ => trivial

theorem Run.Reaches.counted {run : Run} {moment : Moment} (reached : run.Reaches moment) :
    moment.task.Counted := by
  induction reached with
  | start starts =>
    cases starts
    trivial
  | enter _ enters ih => exact enters.counted ih

/-- Whatever the tokens are, also if there are errors among them, what is read from them has only operators
that evaluation knows, names superclasses by identifiers, and has no declaration for a branch or for the body
of a loop, which for a `for` loop is what its rule reads for the body. No run of it stops for an unknown
operator, and every function is called with as many arguments as it has parameters. -/
theorem readProgram_fully_handled (tokens : List Token) :
    let program := (Grammar.readProgram tokens).1
    (∀ place ∈ stmtsPlaces [] program, place.Proper) ∧
    (∀ n c s after, Grammar.forStatement n c = .ok s after → ∃ i e step body k middle,
      Grammar.statement k middle = .ok body after ∧ s = Grammar.forLoop i e step body ∧
        body.declared? = none) ∧
    ∀ fuel depths out clock,
      (∀ e after, interpret fuel program (.start depths out clock) = .error (.fault e) after →
        ∀ lexeme, e.cause ≠ .invalidUnaryOperator lexeme ∧ e.cause ≠ .invalidBinaryOperator lexeme) ∧
      ∀ n f arguments m,
        (Run.mk fuel program (.start depths out clock)).Reaches ⟨n, .callFunction f arguments, m⟩ →
        arguments.length = f.declaration.parameters.length := by
  intro program
  have proper := Grammar.readProgram_proper tokens
  refine ⟨proper, ?_, fun fuel depths out clock => ⟨?_, fun n f arguments m reached => reached.counted⟩⟩
  · intro n c s after read
    obtain ⟨i, e, step, body, k, middle, repeated, same⟩ := Grammar.forStatement_body read
    exact ⟨i, e, step, body, k, middle, repeated, same, Grammar.statement_plain repeated⟩
  · intro e after ended lexeme
    have first := Store.Proper.start depths out clock
    have expected := ((interpret_supplies fuel proper _ first).error_of ended).2
    exact ⟨fun cause => expected (cause ▸ trivial), fun cause => expected (cause ▸ trivial)⟩

/-- What is read before an error calls a class that inherits its initializer. -/
theorem inherited_initializer_counted :
    let source := "class A\x7binit(x)\x7b\x7d\x7dclass B<A\x7b\x7dB(true);-;"
    let tokens := (scan source).1
    let run : Run := ⟨9, (Grammar.readProgram tokens).1, .start ∅ (.ofCapacity none) fun _ => 0⟩
    (Grammar.readProgram tokens).2 ≠ [] ∧
      ∃ n f arguments m, run.Reaches ⟨n, .callFunction f arguments, m⟩ ∧ f.isInitializer ∧
        arguments.length = 1 ∧ f.declaration.parameters.length = 1 := by
  intro source tokens run
  let class_ : Token := ⟨.keyword .class_, "class", 1⟩
  let a : Token := ⟨.identifier, "A", 1⟩
  let b : Token := ⟨.identifier, "B", 1⟩
  let init : Token := ⟨.identifier, "init", 1⟩
  let x : Token := ⟨.identifier, "x", 1⟩
  let opening : Token := ⟨.symbol .leftBrace, "\x7b", 1⟩
  let closing : Token := ⟨.symbol .rightBrace, "\x7d", 1⟩
  let left : Token := ⟨.symbol .leftParen, "(", 1⟩
  let right : Token := ⟨.symbol .rightParen, ")", 1⟩
  let semicolon : Token := ⟨.symbol .semicolon, ";", 1⟩
  let tokens' := [class_, a, opening, init, left, x, right, opening, closing, closing, class_, b,
    ⟨.symbol .less, "<", 1⟩, a, opening, closing, b, left, ⟨.keyword .true_, "true", 1⟩, right, semicolon,
    ⟨.symbol .minus, "-", 1⟩, semicolon, ⟨.endOfFile, "", 1⟩]
  let d : Declaration := ⟨init, [x], []⟩
  let calling : Expr := .call (.variable ⟨1, b⟩) right [.literal (.boolean true)]
  let program : List Stmt := [.class_ a none [d], .class_ b (some ⟨0, a⟩) [], .expression calling]
  have scanned : tokens = tokens' := by decide +kernel
  have parsed : Grammar.readProgram tokens' = (program, [⟨.missingExpression, semicolon⟩]) := by cbv
  let method : Function := ⟨⟨0⟩, d, ⟨0⟩, true⟩
  let parent : Class := ⟨⟨0⟩, "A", none, [("init", method)]⟩
  let c : Class := ⟨⟨1⟩, "B", some parent, []⟩
  let clock : String × Value := ("clock", .native .clock)
  let above : Frame := ⟨[("super", .class_ parent)], some ⟨0⟩⟩
  let one : Machine := { run.first with store := ⟨#[⟨[clock, ("A", .class_ parent)], none⟩], #[], 1, 1⟩ }
  let two : Machine :=
    { run.first with store := ⟨#[⟨[clock, ("A", .class_ parent), ("B", .class_ c)], none⟩, above], #[], 1, 2⟩ }
  have unlocated (id : Nat) : (∅ : Depths)[id]? = none := Std.TreeMap.getElem?_emptyc
  have inherits : superclass (some ⟨0, a⟩) one = .ok (some parent) one :=
    (bind_of_ok (lookUp_of_unlocated (unlocated 0) rfl)).trans rfl
  have derived : defineClass b (some ⟨0, a⟩) [] one = .ok () two := (bind_of_ok inherits).trans rfl
  have first : execute 9 (.class_ a none [d]) run.first = .ok .normal one := rfl
  have second : execute 9 (.class_ b (some ⟨0, a⟩) []) one = .ok .normal two := (bind_of_ok derived).trans rfl
  have before : interpret 9 [.class_ a none [d], .class_ b (some ⟨0, a⟩) []] run.first = .ok () two :=
    (bind_of_ok first).trans ((bind_of_ok second).trans rfl)
  have whole : run.program = [.class_ a none [d], .class_ b (some ⟨0, a⟩) []] ++ .expression calling :: [] := by
    change (Grammar.readProgram tokens).1 = program
    rw [scanned, parsed]
  have started : run.Reaches ⟨9, .execute (.expression calling), two⟩ := .start (.statement whole before)
  have found : lookUp ⟨1, b⟩ two = .ok (.class_ c) two := lookUp_of_unlocated (unlocated 1) rfl
  have callee : evaluate 7 (.variable ⟨1, b⟩) two = .ok (.class_ c) two := found
  have calls := (started.enter .expression).enter (.called callee rfl)
  have called := (calls.enter (.invoked rfl)).enter (.initializer rfl rfl rfl)
  obtain ⟨_, _, handled⟩ := readProgram_fully_handled tokens
  have counted := (handled 9 ∅ (.ofCapacity none) fun _ => 0).2 _ _ _ _ called
  refine ⟨?_, _, _, _, _, called, rfl, rfl, counted.symm⟩
  rw [scanned, parsed]
  exact List.cons_ne_nil _ _

end LoxLang.Eval
