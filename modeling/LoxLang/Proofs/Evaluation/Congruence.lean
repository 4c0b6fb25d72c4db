import LoxLang.Proofs.Evaluation.Within

/-! Relations between two parts of a run, each part on a machine of its own.
A relation between parts that holds between every primitive step and itself, and that sequences,
frames and calls pass on, holds between an evaluation and the same evaluation with more fuel. A
primitive step is either silent, so that it runs alike whatever was printed before it, or it is the
printing of a value. What becomes of two runs of one program is then a matter of these two. -/
namespace LoxLang.Eval

variable {α β : Type}

/-- The part runs alike on machines that differ in their outputs, leaves the output alone, and fails
with nothing but a fault. -/
def Silent (part : Eval α) : Prop :=
  ∀ m, Ends part m
    (fun a after => ∀ output, part { m with output } = .ok a { after with output })
    (fun e after => (∃ fault, e = .fault fault) ∧
      ∀ output, part { m with output } = .error e { after with output })

namespace Silent

theorem pure (a : α) : Silent (Pure.pure a : Eval α) := fun _ _ => rfl

theorem fault (e : RuntimeError) : Silent (throw (.fault e) : Eval α) :=
  fun _ => ⟨⟨e, rfl⟩, fun _ => rfl⟩

theorem fail (cause : RuntimeError.Cause) (line : Nat) : Silent (Eval.fail cause line : Eval α) :=
  fault _

theorem onStore (change : Store → α × Store) : Silent (Eval.onStore change) := fun _ _ => rfl

theorem currentFrame : Silent Eval.currentFrame := fun _ _ => rfl

theorem setFrame (frame : FrameId) : Silent (Eval.setFrame frame) := fun _ _ => rfl

theorem bind {part : Eval α} {next : α → Eval β} (first : Silent part)
    (rest : ∀ a, Silent (next a)) : Silent (part >>= next) := by
  intro m
  apply Ends.bind ((first m).mono (fun _ _ => id) fun e after failed => ?_)
  · intro a middle _ alike
    apply (rest a middle).mono
    · intro b last alike' output
      rw [bind_of_ok (alike output), alike' output]
    · rintro e last ⟨faulted, alike'⟩
      refine ⟨faulted, fun output => ?_⟩
      rw [bind_of_ok (alike output), alike' output]
  · exact ⟨failed.1, fun output => bind_of_error (failed.2 output)⟩

/-- A step may depend on the machine, apart from its output. -/
theorem inspect {next : Machine → Eval β} (blind : ∀ m output, next { m with output } = next m)
    (rest : ∀ m, Silent (next m)) : Silent (get >>= next) := by
  intro m
  have seen (m : Machine) : (get >>= next) m = next m m := rfl
  have ends := rest m m
  unfold Ends at ends ⊢
  simp only [seen, blind]
  exact ends

theorem ofOption (found : Option Value) (cause : RuntimeError.Cause) (line : Nat) :
    Silent (Eval.ofOption found cause line) := by
  cases found with
  | some v => exact pure v
  | none => exact fail cause line

theorem ofExcept (result : Except RuntimeError Value) : Silent (Eval.ofExcept result) := by
  cases result with
  | ok v => exact pure v
  | error e => exact fault e

theorem lookUp (r : Reference) : Silent (Eval.lookUp r) := fun m => ofOption _ _ _ m

theorem checkCall (callee : Value) (line : Nat) (arguments : List Value) :
    Silent (Eval.checkCall callee line arguments) := by
  unfold Eval.checkCall
  split
  · exact fail _ _
  split
  · exact fail _ _
  apply inspect (fun _ _ => rfl)
  intro m
  split
  · exact fail _ _
  · exact pure _

theorem overwrite (name : Token) (write : Store → Bool × Store) :
    Silent (Eval.overwrite name write) := by
  apply bind (onStore write)
  intro written
  cases written with
  | true => exact pure ()
  | false => exact fail _ _

theorem assign (r : Reference) (v : Value) : Silent (Eval.assign r v) := by
  apply inspect (fun _ _ => rfl)
  intro m
  dsimp only
  cases m.depths[r.id]? with
  | some distance => exact overwrite _ _
  | none => exact overwrite _ _

theorem define (name : Token) (v : Value) : Silent (Eval.define name v) := fun _ _ => rfl

theorem assignNearest (name : Token) (v : Value) : Silent (Eval.assignNearest name v) :=
  bind currentFrame fun _ => overwrite _ _

theorem readClock : Silent Eval.readClock := fun _ _ => rfl

theorem property (i : Instance) (name : Token) : Silent (Eval.property i name) := by
  apply inspect (fun _ _ => rfl)
  intro m
  split
  · exact pure _
  · exact bind (onStore _) fun f => pure _
  · exact fail _ _

theorem setProperty (i : Instance) (name : Token) (v : Value) :
    Silent (Eval.setProperty i name v) := fun _ _ => rfl

theorem superMethod (keyword : Reference) (method : Token) :
    Silent (Eval.superMethod keyword method) := by
  apply inspect (fun _ _ => rfl)
  intro m
  dsimp only
  split
  · exact fail _ _
  apply bind (ofOption _ _ _)
  intro parent
  apply bind (ofOption _ _ _)
  intro object
  split
  · split
    · exact bind (onStore _) fun f => pure _
    · exact fail _ _
  · exact fail _ _

theorem superclass (clause : Option Reference) : Silent (Eval.superclass clause) := by
  cases clause with
  | none => exact pure none
  | some r =>
    apply bind (lookUp r)
    intro v
    split
    · exact pure _
    · exact fail _ _

theorem methodFrame (parent : Option Class) : Silent (Eval.methodFrame parent) := by
  cases parent with
  | none => exact currentFrame
  | some c => exact bind currentFrame fun frame => onStore _

theorem closeMethods (methods : List Declaration) : Silent (Eval.closeMethods methods) := by
  induction methods with
  | nil => exact pure []
  | cons d rest ih =>
    exact bind currentFrame fun closure => bind (onStore _) fun f => bind ih fun closed => pure _

theorem makeClass (name : String) (parent : Option Class) (methods : List Declaration) :
    Silent (Eval.makeClass name parent methods) := by
  apply bind currentFrame
  intro previous
  apply bind (methodFrame parent)
  intro frame
  apply bind (setFrame frame)
  intro _
  apply bind (bind (closeMethods methods) fun closed => onStore _)
  intro c
  exact bind (setFrame previous) fun _ => pure c

theorem defineFunction (d : Declaration) : Silent (Eval.defineFunction d) :=
  bind currentFrame fun _ => bind (onStore _) fun f => define d.name (.function f)

theorem defineClass (name : Token) (clause : Option Reference) (methods : List Declaration) :
    Silent (Eval.defineClass name clause methods) := by
  apply bind (superclass clause)
  intro parent
  apply bind (define name .nil)
  intro _
  exact bind (makeClass name.lexeme parent methods) fun c => assignNearest name (.class_ c)

end Silent

/-- What a relation between parts must satisfy to hold between an evaluation and the same evaluation
with more fuel. -/
structure Congruence (P : {α : Type} → Eval α → Eval α → Prop) : Prop where
  exhausted : ∀ {α : Type} (part : Eval α), P Eval.exhausted part
  silent : ∀ {α : Type} {part : Eval α}, Silent part → P part part
  print : ∀ v, P (Eval.print v) (Eval.print v)
  bind : ∀ {α β : Type} {part part' : Eval α} {next next' : α → Eval β}, P part part' →
    (∀ a, P (next a) (next' a)) → P (part >>= next) (part' >>= next')
  inspect : ∀ {β : Type} {next next' : Machine → Eval β},
    (∀ m output, next { m with output } = next m) →
    (∀ m output, next' { m with output } = next' m) →
    (∀ m, P (next m) (next' m)) → P (get >>= next) (get >>= next')
  inFrame : ∀ {α : Type} (frame : FrameId) {part part' : Eval α}, P part part' →
    P (inFrame frame part) (inFrame frame part')
  inCall : ∀ {α : Type} {part part' : Eval α}, P part part' → P (inCall part) (inCall part')

/-- The relation holds between the parts of a run that has the first fuel and the same parts with the
second. -/
structure AllPaired (P : {α : Type} → Eval α → Eval α → Prop) (fuel fuel' : Nat) : Prop where
  evaluate : ∀ e, P (evaluate fuel e) (evaluate fuel' e)
  evaluateAll : ∀ es, P (evaluateAll fuel es) (evaluateAll fuel' es)
  call : ∀ callee line arguments, P (call fuel callee line arguments) (call fuel' callee line arguments)
  invoke : ∀ callee arguments, P (invoke fuel callee arguments) (invoke fuel' callee arguments)
  callFunction : ∀ f arguments, P (callFunction fuel f arguments) (callFunction fuel' f arguments)
  execute : ∀ s, P (execute fuel s) (execute fuel' s)
  executeAll : ∀ body, P (executeAll fuel body) (executeAll fuel' body)
  loop : ∀ condition body, P (loop fuel condition body) (loop fuel' condition body)

namespace Congruence

variable {P : {α : Type} → Eval α → Eval α → Prop} (congruence : Congruence P)
include congruence

theorem pure (a : α) : P (Pure.pure a : Eval α) (Pure.pure a) := congruence.silent (.pure a)

theorem fail (cause : RuntimeError.Cause) (line : Nat) :
    P (Eval.fail cause line : Eval α) (Eval.fail cause line) := congruence.silent (.fail cause line)

variable {fuel fuel' : Nat} (all : AllPaired P fuel fuel')
include all

theorem evaluate_succ (e : Expr) : P (evaluate (fuel + 1) e) (evaluate (fuel' + 1) e) := by
  rw [evaluate.eq_def, evaluate.eq_def (fuel' + 1)]
  cases e with
  | literal l => exact congruence.pure _
  | grouping inner => exact all.evaluate inner
  | unary operator right =>
    exact congruence.bind (all.evaluate right) fun _ => congruence.silent (.ofExcept _)
  | binary left operator right =>
    apply congruence.bind (all.evaluate left)
    intro a
    exact congruence.bind (all.evaluate right) fun b => congruence.silent (.ofExcept _)
  | logical left operator right =>
    apply congruence.bind (all.evaluate left)
    intro a
    split
    · exact congruence.pure a
    · exact all.evaluate right
  | conditional condition thenBranch elseBranch =>
    apply congruence.bind (all.evaluate condition)
    intro test
    split
    · exact all.evaluate thenBranch
    · exact all.evaluate elseBranch
  | «variable» r => exact congruence.silent (.lookUp r)
  | assign r value =>
    apply congruence.bind (all.evaluate value)
    intro v
    exact congruence.bind (congruence.silent (.assign r v)) fun _ => congruence.pure v
  | call callee paren arguments =>
    apply congruence.bind (all.evaluate callee)
    intro f
    exact congruence.bind (all.evaluateAll arguments) fun values => all.call f paren.line values
  | get object name =>
    apply congruence.bind (all.evaluate object)
    intro v
    split
    · exact congruence.silent (.property _ name)
    · exact congruence.fail _ _
  | set object name value =>
    apply congruence.bind (all.evaluate object)
    intro v
    split
    · exact congruence.bind (all.evaluate value) fun v =>
        congruence.bind (congruence.silent (.setProperty _ name v)) fun _ => congruence.pure v
    · exact congruence.fail _ _
  | this r => exact congruence.silent (.lookUp r)
  | super r method => exact congruence.silent (.superMethod r method)

theorem evaluateAll_succ (es : List Expr) :
    P (evaluateAll (fuel + 1) es) (evaluateAll (fuel' + 1) es) := by
  cases es with
  | nil => exact congruence.pure []
  | cons e rest =>
    apply congruence.bind (all.evaluate e)
    intro v
    exact congruence.bind (all.evaluateAll rest) fun values => congruence.pure _

theorem call_succ (callee : Value) (line : Nat) (arguments : List Value) :
    P (call (fuel + 1) callee line arguments) (call (fuel' + 1) callee line arguments) := by
  apply congruence.bind (congruence.silent (.checkCall callee line arguments))
  intro f
  exact congruence.inCall (all.invoke f arguments)

theorem invoke_succ (callee : Callable) (arguments : List Value) :
    P (invoke (fuel + 1) callee arguments) (invoke (fuel' + 1) callee arguments) := by
  cases callee with
  | native f => exact congruence.silent .readClock
  | function f => exact all.callFunction f arguments
  | class_ c =>
    apply congruence.bind (congruence.silent (.onStore _))
    intro i
    split
    · exact congruence.pure _
    · apply congruence.bind (congruence.silent (.onStore _))
      intro bound
      exact congruence.bind (all.callFunction bound arguments) fun _ => congruence.pure _

theorem callFunction_succ (f : Function) (arguments : List Value) :
    P (callFunction (fuel + 1) f arguments) (callFunction (fuel' + 1) f arguments) := by
  apply congruence.bind (congruence.silent (.onStore _))
  intro frame
  apply congruence.bind (congruence.inFrame frame (all.executeAll f.declaration.body))
  intro completion
  split
  · exact congruence.inspect (fun _ _ => rfl) (fun _ _ => rfl)
      fun m => congruence.silent (.ofOption _ _ _)
  · cases completion with
    | returned v => exact congruence.pure v
    | normal => exact congruence.pure Value.nil

theorem execute_succ (s : Stmt) : P (execute (fuel + 1) s) (execute (fuel' + 1) s) := by
  rw [execute.eq_def, execute.eq_def (fuel' + 1)]
  cases s with
  | expression e => exact congruence.bind (all.evaluate e) fun _ => congruence.pure _
  | print e =>
    apply congruence.bind (all.evaluate e)
    intro v
    exact congruence.bind (congruence.print v) fun _ => congruence.pure _
  | var name initializer =>
    cases initializer with
    | none =>
      exact congruence.bind (congruence.silent (.define name .nil)) fun _ => congruence.pure _
    | some e =>
      apply congruence.bind (all.evaluate e)
      intro v
      exact congruence.bind (congruence.silent (.define name v)) fun _ => congruence.pure _
  | block body =>
    apply congruence.bind (congruence.silent .currentFrame)
    intro outer
    apply congruence.bind (congruence.silent (.onStore _))
    intro frame
    exact congruence.inFrame frame (all.executeAll body)
  | if_ condition thenBranch elseBranch =>
    apply congruence.bind (all.evaluate condition)
    intro test
    split
    · exact all.execute thenBranch
    · split
      · exact congruence.pure _
      · exact all.execute _
  | while_ condition body => exact all.loop condition body
  | function d =>
    exact congruence.bind (congruence.silent (.defineFunction d)) fun _ => congruence.pure _
  | return_ keyword value =>
    cases value with
    | none => exact congruence.pure _
    | some e => exact congruence.bind (all.evaluate e) fun v => congruence.pure _
  | class_ name clause methods =>
    exact congruence.bind (congruence.silent (.defineClass name clause methods))
      fun _ => congruence.pure _

theorem executeAll_succ (body : List Stmt) :
    P (executeAll (fuel + 1) body) (executeAll (fuel' + 1) body) := by
  cases body with
  | nil => exact congruence.pure _
  | cons s rest =>
    apply congruence.bind (all.execute s)
    intro completion
    cases completion with
    | normal => exact all.executeAll rest
    | returned v => exact congruence.pure _

theorem loop_succ (condition : Expr) (body : Stmt) :
    P (loop (fuel + 1) condition body) (loop (fuel' + 1) condition body) := by
  apply congruence.bind (all.evaluate condition)
  intro test
  split
  · apply congruence.bind (all.execute body)
    intro completion
    cases completion with
    | normal => exact all.loop condition body
    | returned v => exact congruence.pure _
  · exact congruence.pure _

omit all

/-- A congruence holds between every part of a run and the same part with more fuel. -/
theorem allPaired (more : fuel ≤ fuel') : AllPaired P fuel fuel' := by
  induction fuel generalizing fuel' with
  | zero => constructor <;> intros <;> exact congruence.exhausted _
  | succ fuel ih =>
    obtain ⟨fuel', rfl⟩ : ∃ less, fuel' = less + 1 := ⟨fuel' - 1, by omega⟩
    have all := ih (Nat.le_of_succ_le_succ more)
    exact ⟨congruence.evaluate_succ all, congruence.evaluateAll_succ all, congruence.call_succ all,
      congruence.invoke_succ all, congruence.callFunction_succ all, congruence.execute_succ all,
      congruence.executeAll_succ all, congruence.loop_succ all⟩

/-- A congruence holds between the statements of a program and the same statements with more fuel. -/
theorem interpret (more : fuel ≤ fuel') (program : List Stmt) :
    P (interpret fuel program) (interpret fuel' program) := by
  induction program with
  | nil => exact congruence.pure ()
  | cons s rest ih => exact congruence.bind ((congruence.allPaired more).execute s) fun _ => ih

end Congruence

end LoxLang.Eval
