import LoxLang.Proofs.Evaluation.Sound
import LoxLang.Proofs.Grammar.Proper

/-! Runs of proper code. Every function that a run comes to hold was declared in the program, so the code of
its body is as proper as the program is, wherever the function has been stored in the meantime. An operator
of such code is always known. And whoever calls a function has compared the number of the arguments with that
very function, or with the initializer that is then run. -/
namespace LoxLang
open Scope

/-- The fault is that a token is no operator. -/
def RuntimeError.Cause.IsUnknownOperator : RuntimeError.Cause → Prop
  | .invalidUnaryOperator _ | .invalidBinaryOperator _ => True
  | _ => False

/-- Evaluation does not stop for an unknown operator. -/
def Interruption.Expected : Interruption → Prop
  | .fault e => ¬ e.cause.IsUnknownOperator
  | _ => True

/-! ### Proper values -/

/-- The body of the function or method is proper code. -/
def Declaration.Proper (d : Declaration) : Prop := ∃ path, ∀ place ∈ stmtsPlaces path d.body, place.Proper

def Class.Proper (c : Class) : Prop := ∀ name f, c.findMethod? name = some f → f.declaration.Proper

/-- Whatever can be called through the value is proper code. -/
def Value.Proper : Value → Prop
  | .function f => f.declaration.Proper
  | .class_ c => c.Proper
  | .instance_ i => i.cls.Proper
  | _ => True

def Callable.Proper : Callable → Prop
  | .native _ => True
  | .function f => f.declaration.Proper
  | .class_ c => c.Proper

def Completion.Proper : Completion → Prop
  | .normal => True
  | .returned v => v.Proper

/-- Every value in a frame or a field is proper. -/
structure Store.Proper (s : Store) : Prop where
  bound : ∀ frame name v, s.read? frame name = some v → v.Proper
  fields : ∀ i name v, s.field? i name = some v → v.Proper

theorem Value.Proper.callable {v : Value} {f : Callable} (proper : v.Proper) (callable : v.callable? = some f) :
    f.Proper := by
  cases v <;> cases callable <;> exact proper

theorem Class.proper_of {c : Class} (own : ∀ name f, c.methods.get? name = some f → f.declaration.Proper)
    (inherited : ∀ parent ∈ c.superclass, parent.Proper) : c.Proper := by
  intro name f found
  rcases Class.own_or_inherited found with got | ⟨parent, above, got⟩
  · exact own name f got
  · exact inherited parent above name f got

theorem Declaration.proper_of_mem {path : List Encloser} {clause : Option Reference} {d : Declaration}
    {methods : List Declaration} (proper : ∀ place ∈ methodsPlaces path clause methods, place.Proper)
    (member : d ∈ methods) : d.Proper := by
  induction methods with
  | nil => cases member
  | cons first rest ih =>
    obtain ⟨name, parameters, body⟩ := first
    obtain ⟨own, others⟩ := List.forall_mem_append.mp proper
    rcases List.mem_cons.mp member with rfl | later
    · exact ⟨_, own⟩
    · exact ih others later

namespace Store.Proper

variable {s : Store}

theorem newFrame (proper : s.Proper) (enclosing : Option FrameId) {bindings : Table Value}
    (values : ∀ name v, bindings.get? name = some v → v.Proper) : (s.newFrame enclosing bindings).2.Proper where
  bound frame name v found := by
    rw [read?_newFrame] at found
    split at found
    · exact values name v found
    · exact proper.bound frame name v found
  fields := proper.fields

/-- A new frame that binds one name. -/
theorem newWord (proper : s.Proper) (enclosing : Option FrameId) (word : String) {v : Value} (value : v.Proper) :
    (s.newFrame enclosing [(word, v)]).2.Proper := by
  apply proper.newFrame enclosing
  intro name w found
  obtain ⟨_, rfl⟩ := Table.eq_of_get?_singleton found
  exact value

theorem define (proper : s.Proper) (frame : FrameId) (name : String) {v : Value} (value : v.Proper) :
    (s.define frame name v).Proper where
  bound other key w found := by
    rw [read?_define] at found
    split at found
    · cases found
      exact value
    · exact proper.bound other key w found
  fields := proper.fields

theorem overwrite (proper : s.Proper) (holder : Option FrameId) (name : String) {v : Value} (value : v.Proper) :
    (s.overwrite holder name v).2.Proper := by
  cases holder with
  | none => exact proper
  | some frame => exact proper.define frame name value

theorem setField (proper : s.Proper) (i : Instance) (name : String) {v : Value} (value : v.Proper) :
    (s.setField i name v).Proper where
  bound := proper.bound
  fields other key w found := by
    rw [field?_setField] at found
    split at found
    · cases found
      exact value
    · exact proper.fields other key w found

theorem newInstance (proper : s.Proper) (c : Class) : (s.newInstance c).2.Proper where
  bound := proper.bound
  fields i name v found := by
    rw [field?_newInstance] at found
    exact proper.fields i name v found

theorem bindMethod (proper : s.Proper) (method : Function) {i : Instance} (cls : i.cls.Proper) :
    (s.bindMethod method i).2.Proper :=
  let framed := proper.newWord (some method.closure) "this" (v := .instance_ i) cls
  ⟨framed.bound, framed.fields⟩

/-- The store on which a machine is started holds nothing but native functions. -/
theorem start (depths : Depths) (out : Sink) (clock : Nat → Float) :
    (Machine.start depths out clock).store.Proper := by
  have empty : Store.empty.Proper :=
    ⟨fun _ _ _ found => by simp [read?, Store.empty] at found,
      fun _ _ _ found => by simp [field?, Store.empty] at found⟩
  exact empty.newWord none "clock" (v := .native .clock) trivial

end Store.Proper

/-! ### Operators -/

/-- The result is a proper value, or a fault other than for an unknown operator. -/
def Operator.Known : Except RuntimeError Value → Prop
  | .ok v => v.Proper
  | .error e => ¬ e.cause.IsUnknownOperator

namespace Operator

variable {operator : Token} {v v' : Value}

theorem unary_known (listed : operator.kind ∈ unaries) : Known (unary operator v) := by
  have either : operator.kind = .symbol .bang ∨ operator.kind = .symbol .minus := by
    simpa [unaries] using listed
  rcases either with bang | minus
  · simp [unary, bang, Known, Value.Proper]
  · cases v <;> simp [unary, minus, Known, Value.Proper, RuntimeError.Cause.IsUnknownOperator]

theorem add_known : Known (add operator v v') := by
  unfold add
  split <;> simp [Known, Value.Proper, RuntimeError.Cause.IsUnknownOperator]

theorem arithmetic_known {a b : Float} (listed : operator.kind ∈ binaries) (plus : operator.kind ≠ .symbol .plus)
    (equal : operator.kind ≠ .symbol .equalEqual) (unequal : operator.kind ≠ .symbol .bangEqual) :
    Known (arithmetic operator a b) := by
  unfold arithmetic
  split
  case h_4 | h_5 => split <;> simp [Known, Value.Proper, RuntimeError.Cause.IsUnknownOperator]
  case h_10 => simp_all [binaries]
  all_goals trivial

theorem binary_known (listed : operator.kind ∈ binaries) : Known (binary operator v v') := by
  unfold binary
  split
  · exact add_known
  · trivial
  · trivial
  · next plus equal unequal =>
    split
    · exact arithmetic_known listed plus equal unequal
    · exact id

end Operator

namespace Eval

/-! ### Parts of a run -/

/-- On a proper store the part gives what is `ok`, or stops for something expected, and the store is proper
afterwards. -/
def Supplies {α : Type} (part : Eval α) (ok : α → Prop) : Prop :=
  ∀ m, m.store.Proper → Ends part m (fun a after => after.store.Proper ∧ ok a)
    fun e after => after.store.Proper ∧ e.Expected

namespace Supplies

variable {α β : Type} {part : Eval α} {next : α → Eval β} {ok : α → Prop} {done : β → Prop}

theorem bind (first : Supplies part ok) (rest : ∀ a, ok a → Supplies (next a) done) :
    Supplies (part >>= next) done :=
  fun m proper => Ends.bind (first m proper) fun a after _ given => rest a given.2 after given.1

theorem pure {a : α} (holds : ok a) : Supplies (Pure.pure a) ok := fun _ proper => ⟨proper, holds⟩

theorem exhausted : Supplies Eval.exhausted ok := fun _ proper => ⟨proper, trivial⟩

theorem fail {cause : RuntimeError.Cause} {line : Nat} (expected : ¬ cause.IsUnknownOperator) :
    Supplies (Eval.fail cause line) ok := fun _ proper => ⟨proper, expected⟩

/-- A step that only looks at the machine. -/
theorem get : Supplies (get : Eval Machine) fun m => m.store.Proper := fun _ proper => ⟨proper, proper⟩

theorem currentFrame : Supplies Eval.currentFrame fun _ => True := fun _ proper => ⟨proper, trivial⟩

theorem onStore {change : Store → α × Store} (kept : ∀ s, s.Proper → (change s).2.Proper ∧ ok (change s).1) :
    Supplies (Eval.onStore change) ok := fun m proper => kept m.store proper

theorem inFrame {frame : FrameId} (inner : Supplies part ok) : Supplies (Eval.inFrame frame part) ok :=
  fun m proper => inFrame_ends (inner { m with current := frame } proper)

theorem inCall (inner : Supplies part ok) : Supplies (Eval.inCall part) ok :=
  fun m proper => inCall_ends (inner { m with activeCalls := m.activeCalls + 1 } proper)

theorem ofOption {found : Option Value} {cause : RuntimeError.Cause} {line : Nat} {ok : Value → Prop}
    (expected : ¬ cause.IsUnknownOperator) (holds : ∀ v, found = some v → ok v) :
    Supplies (Eval.ofOption found cause line) ok := by
  cases found with
  | none => exact fail expected
  | some v => exact pure (holds v rfl)

theorem ofExcept {result : Except RuntimeError Value} (known : Operator.Known result) :
    Supplies (Eval.ofExcept result) Value.Proper := by
  cases result with
  | error e => exact fun _ proper => ⟨proper, known⟩
  | ok v => exact pure known

/-! The steps of the machine -/

theorem checkCall {callee : Value} {line : Nat} {arguments : List Value} (proper : callee.Proper) :
    Supplies (Eval.checkCall callee line arguments) Callable.Proper := by
  unfold Eval.checkCall
  split
  · exact fail id
  next f callable =>
  split
  · exact fail id
  apply get.bind
  intro m _
  split
  · exact fail id
  · exact pure (proper.callable callable)

theorem lookUp (r : Reference) : Supplies (Eval.lookUp r) Value.Proper := by
  intro m proper
  refine @ofOption _ _ _ Value.Proper id (fun v found => ?_) m proper
  split at found
  · obtain ⟨holder, read⟩ := Store.read_of_getAt? found
    exact proper.bound holder _ v read
  · obtain ⟨holder, read⟩ := Store.read_of_get? found
    exact proper.bound holder _ v read

theorem overwrite {name : Token} {v : Value} (holder : Store → Option FrameId) (value : v.Proper) :
    Supplies (Eval.overwrite name fun s => s.overwrite (holder s) name.lexeme v) fun _ => True := by
  have written : Supplies (Eval.onStore fun s => s.overwrite (holder s) name.lexeme v) fun _ => True :=
    onStore fun s proper => ⟨proper.overwrite (holder s) name.lexeme value, trivial⟩
  apply written.bind
  intro found _
  cases found with
  | true => exact pure trivial
  | false => exact fail id

theorem assign {r : Reference} {v : Value} (value : v.Proper) : Supplies (Eval.assign r v) fun _ => True := by
  apply get.bind
  intro m _
  dsimp only
  split
  · simp only [Store.assignAt_eq]
    exact overwrite (fun s => s.holderAt? _ m.current r.name.lexeme) value
  · simp only [Store.assign_eq]
    exact overwrite (fun s => s.holder? m.globals r.name.lexeme) value

theorem define {name : Token} {v : Value} (value : v.Proper) : Supplies (Eval.define name v) fun _ => True :=
  fun m proper => ⟨proper.define m.current name.lexeme value, trivial⟩

theorem print (v : Value) : Supplies (Eval.print v) fun _ => True := by
  intro m proper
  unfold Eval.print Ends
  dsimp only
  split
  · next ended =>
    split at ended
    · cases ended
      exact ⟨proper, trivial⟩
    · cases ended
  · next ended =>
    split at ended
    · cases ended
    · cases ended
      exact ⟨proper, trivial⟩

theorem bindMethod {method : Function} {i : Instance} (proper : method.declaration.Proper) (cls : i.cls.Proper) :
    Supplies (Eval.onStore fun s => s.bindMethod method i) fun f => f.declaration.Proper :=
  onStore fun _ kept => ⟨kept.bindMethod method cls, proper⟩

theorem property {i : Instance} {name : Token} (cls : i.cls.Proper) :
    Supplies (Eval.property i name) Value.Proper := by
  apply get.bind
  intro m proper
  split
  · next v _ field => exact pure (proper.fields _ _ _ field)
  · next method _ found => exact (bindMethod (cls _ _ found) cls).bind fun f declared => pure declared
  · exact fail id

theorem superMethod {keyword : Reference} {method : Token} :
    Supplies (Eval.superMethod keyword method) Value.Proper := by
  apply get.bind
  intro m proper
  dsimp only
  have read {distance : Nat} {name : String} {line : Nat} : Supplies (Eval.ofOption
      (m.store.getAt? distance m.current name) (.undefinedVariable name) line) Value.Proper := by
    refine ofOption id fun v found => ?_
    obtain ⟨holder, held⟩ := Store.read_of_getAt? found
    exact proper.bound holder name v held
  split
  · exact fail id
  apply read.bind
  intro parent above
  apply read.bind
  intro object receiver
  split
  · split
    · next found => exact (bindMethod (above _ _ found) receiver).bind fun f declared => pure declared
    · exact fail id
  · exact fail id

theorem superclass (clause : Option Reference) :
    Supplies (Eval.superclass clause) fun parent => ∀ c ∈ parent, c.Proper := by
  cases clause with
  | none => exact pure nofun
  | some r =>
    apply (lookUp r).bind
    intro v value
    split
    · refine pure ?_
      rintro _ ⟨⟩
      exact value
    · exact fail id

theorem methodFrame {parent : Option Class} (parents : ∀ c ∈ parent, c.Proper) :
    Supplies (Eval.methodFrame parent) fun _ => True := by
  cases parent with
  | none => exact currentFrame
  | some c =>
    have value : Value.Proper (.class_ c) := parents c rfl
    exact currentFrame.bind fun frame _ => onStore fun s proper => ⟨proper.newWord _ "super" value, trivial⟩

theorem newFunction {d : Declaration} {closure : FrameId} {isInitializer : Bool} (declared : d.Proper) :
    Supplies (Eval.onStore fun s => s.newFunction d closure isInitializer) fun f => f.declaration.Proper :=
  onStore fun _ proper => ⟨⟨proper.bound, proper.fields⟩, declared⟩

theorem closeMethods {methods : List Declaration} (declared : ∀ d ∈ methods, d.Proper) :
    Supplies (Eval.closeMethods methods) fun closed => ∀ pair ∈ closed, pair.2.declaration.Proper := by
  induction methods with
  | nil => exact pure nofun
  | cons d rest ih =>
    obtain ⟨own, others⟩ := List.forall_mem_cons.mp declared
    apply currentFrame.bind
    intro closure _
    apply (newFunction own).bind
    intro f made
    exact (ih others).bind fun closed later => pure (List.forall_mem_cons.mpr ⟨made, later⟩)

theorem makeClass {name : String} {parent : Option Class} {methods : List Declaration}
    (parents : ∀ c ∈ parent, c.Proper) (declared : ∀ d ∈ methods, d.Proper) :
    Supplies (Eval.makeClass name parent methods) Class.Proper := by
  have classed : Supplies (Eval.closeClass name parent methods) Class.Proper := by
    apply (closeMethods declared).bind
    intro closed made
    exact onStore fun s proper => ⟨⟨proper.bound, proper.fields⟩,
      Class.proper_of (fun _ _ found => made _ (Table.mem_of_get?_ofList found)) parents⟩
  rw [makeClass_eq]
  exact (methodFrame parents).bind fun frame _ => classed.inFrame

theorem defineFunction {d : Declaration} (declared : d.Proper) : Supplies (Eval.defineFunction d) fun _ => True :=
  currentFrame.bind fun _ _ => (newFunction declared).bind fun _ made => define made

theorem defineClass {name : Token} {clause : Option Reference} {methods : List Declaration}
    (declared : ∀ d ∈ methods, d.Proper) : Supplies (Eval.defineClass name clause methods) fun _ => True := by
  apply (superclass clause).bind
  intro parent parents
  apply (define (v := .nil) trivial).bind
  intro _ _
  apply (makeClass parents declared).bind
  intro c whole
  apply currentFrame.bind
  intro frame _
  simp only [Store.assign_eq]
  exact overwrite (fun s => s.holder? frame name.lexeme) (v := .class_ c) whole

end Supplies
end Eval
end LoxLang
