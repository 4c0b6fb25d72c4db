import LoxLang.Proofs.Evaluation.Declaring
import LoxLang.Proofs.Scope.Declared

/-! Sound moments. At every moment of a run the frames mirror the levels around the code about to run,
every function in the store mirrors the levels around its declaration, and a function is called with as
many arguments as it has parameters. A moment is entered soundly if the parts before it delivered what
they should, and a part delivers it if it was entered soundly; the fuel is what the induction is on. -/
namespace LoxLang.Eval.Run
open Scope

/-- What a part about to run must be, inside these levels: a part of the program, or a call of
sound values. -/
def TaskSound (run : Run) (s : Store) (levels : List Level) : Task → Prop
  | .evaluate e => exprOccurrences levels e ⊆ occurrences run.program
  | .evaluateAll es => exprsOccurrences levels es ⊆ occurrences run.program
  | .call callee _ arguments => run.ValueSound s callee ∧ ∀ v ∈ arguments, run.ValueSound s v
  | .invoke callee arguments => run.CallableSound s callee ∧
    (∀ v ∈ arguments, run.ValueSound s v) ∧ arguments.length = callee.arity
  | .callFunction f arguments => run.FunctionSound s f ∧
    (∀ v ∈ arguments, run.ValueSound s v) ∧ arguments.length = f.arity
  | .execute s' => stmtOccurrences levels s' ⊆ occurrences run.program
  | .executeAll body => stmtsOccurrences levels body ⊆ occurrences run.program
  | .loop condition body => exprOccurrences levels condition ⊆ occurrences run.program ∧
    stmtOccurrences levels body ⊆ occurrences run.program

/-- The moment is sound inside these levels, for which these scopes are open. -/
structure SoundIn (run : Run) (moment : Moment) (levels : List Level) (scopes : List Activation) :
    Prop where
  plain : run.Plain
  opened : run.Opened moment scopes
  mirrored : Mirrored run.first.globals moment.machine.store levels scopes moment.machine.current
  store : run.StoreSound moment.machine.store
  task : run.TaskSound moment.machine.store levels moment.task

def Sound (run : Run) (moment : Moment) : Prop := ∃ levels scopes, run.SoundIn moment levels scopes

/-- What the part of a moment gives is sound, and a declaration binds its name. -/
def Delivers (run : Run) (moment : Moment) : Prop :=
  let fuel := moment.fuel
  let m := moment.machine
  let value (v : Value) (after : Machine) : Prop := run.ValueSound after.store v
  let completion (c : Completion) (after : Machine) : Prop := run.CompletionSound after.store c
  match moment.task with
  | .evaluate e => run.Gives (evaluate fuel e) m value
  | .evaluateAll es => run.Gives (evaluateAll fuel es) m fun values after => ∀ v ∈ values, value v after
  | .call callee line arguments => run.Gives (call fuel callee line arguments) m value
  | .invoke callee arguments => run.Gives (invoke fuel callee arguments) m value
  | .callFunction f arguments => run.Gives (callFunction fuel f arguments) m value
  | .execute s => run.Gives (execute fuel s) m fun c after => completion c after ∧
    ∀ t, s.declared? = some t → after.store.binds m.current t.lexeme
  | .executeAll body => run.Gives (executeAll fuel body) m completion
  | .loop condition body => run.Gives (Eval.loop fuel condition body) m completion

/-- Parts with this much fuel deliver wherever they are entered soundly. -/
def AllDeliver (run : Run) (fuel : Nat) : Prop :=
  ∀ ⦃task m⦄, run.Sound ⟨fuel, task, m⟩ → run.Delivers ⟨fuel, task, m⟩

variable {run : Run} {fuel : Nat} {task task' : Task} {m next : Machine} {levels : List Level}
  {scopes : List Activation}

/-- A part has ended here: the store is sound, and has grown and kept what reserved words are bound to,
and the current frame is the same. -/
structure Left (run : Run) (m next : Machine) : Prop where
  current : next.current = m.current
  grown : m.store.Kept next.store
  store : run.StoreSound next.store

namespace SoundIn

/-- The part has no reserved words for names either. -/
theorem names {moment : Moment} (sound : run.SoundIn moment levels scopes) :
    moment.task.Names Token.Unreserved (fun r => r.name.Unreserved) fun _ => True :=
  sound.opened.names sound.plain

/-- The first part that a part enters runs on the same machine. -/
theorem start (sound : run.SoundIn ⟨fuel + 1, task, m⟩ levels scopes)
    (enters : Enters ⟨fuel + 1, task, m⟩ ⟨fuel, task', m⟩) (plain : ¬ task.Opens)
    (fit : run.TaskSound m.store levels task') : run.SoundIn ⟨fuel, task', m⟩ levels scopes :=
  ⟨sound.plain, .enter sound.opened enters plain, sound.mirrored, sound.store, fit⟩

/-- A later one runs on the machine that those before it left. -/
theorem resume (sound : run.SoundIn ⟨fuel + 1, task, m⟩ levels scopes) (left : run.Left m next)
    (enters : Enters ⟨fuel + 1, task, m⟩ ⟨fuel, task', next⟩) (plain : ¬ task.Opens)
    (fit : run.TaskSound next.store levels task') : run.SoundIn ⟨fuel, task', next⟩ levels scopes := by
  refine ⟨sound.plain, .enter sound.opened enters plain, ?_, left.store, fit⟩
  have mirrored := sound.mirrored.grown left.grown
  rw [← left.current] at mirrored
  exact mirrored

variable (all : run.AllDeliver fuel)
include all

theorem evaluated {e : Expr} {v : Value} (sound : run.SoundIn ⟨fuel, .evaluate e, m⟩ levels scopes)
    (ended : evaluate fuel e m = .ok v next) : run.Left m next ∧ run.ValueSound next.store v := by
  have given := Ends.ok_of (all ⟨_, _, sound⟩) ended
  exact ⟨⟨(((allRestored fuel).evaluate e m).ok_of ended).current, given.1, given.2.1⟩, given.2.2⟩

theorem evaluatedAll {es : List Expr} {values : List Value}
    (sound : run.SoundIn ⟨fuel, .evaluateAll es, m⟩ levels scopes)
    (ended : evaluateAll fuel es m = .ok values next) :
    run.Left m next ∧ ∀ v ∈ values, run.ValueSound next.store v := by
  have given := Ends.ok_of (all ⟨_, _, sound⟩) ended
  exact ⟨⟨(((allRestored fuel).evaluateAll es m).ok_of ended).current, given.1, given.2.1⟩, given.2.2⟩

theorem executed {s : Stmt} {c : Completion} (sound : run.SoundIn ⟨fuel, .execute s, m⟩ levels scopes)
    (ended : execute fuel s m = .ok c next) :
    run.Left m next ∧ ∀ t, s.declared? = some t → next.store.binds m.current t.lexeme := by
  have given := Ends.ok_of (all ⟨_, _, sound⟩) ended
  exact ⟨⟨(((allRestored fuel).execute s m).ok_of ended).current, given.1, given.2.1⟩, given.2.2.2⟩

end SoundIn

theorem Left.trans {last : Machine} (first : run.Left m next) (second : run.Left next last) :
    run.Left m last :=
  ⟨second.current.trans first.current, first.grown.trans second.grown, second.store⟩

/-- A block runs inside a level of its own, in a new frame. -/
theorem SoundIn.block {body : List Stmt}
    (sound : run.SoundIn ⟨fuel + 1, .execute (.block body), m⟩ levels scopes) :
    run.Sound ⟨fuel, .executeAll body, blockEntered m⟩ := by
  have kept := Store.Kept.newFrame m.store (some m.current) []
  refine ⟨⟨.block body, []⟩ :: levels, _, sound.plain, .block sound.opened .block, ?_, ?_, sound.task⟩
  · refine .inside rfl rfl trivial nofun ?_ (sound.mirrored.grown kept)
    have entered : (blockEntered m).current = ⟨m.store.frames.size⟩ := rfl
    change (m.store.newFrame (some m.current) []).2.enclosing? _ = _
    rw [Store.enclosing?_newFrame, if_pos (congrArg FrameId.index entered)]
  · exact sound.store.newFrame (some m.current) nofun

/-- The parameters are all bound at the start of a function's body. -/
theorem parameters_bound {parameters : List Token} {arguments : List Value}
    (arity : arguments.length = parameters.length) {name : String}
    (ready : (parameterNames parameters).get? name = some true) :
    ((Table.ofList ((parameters.map Token.lexeme).zip arguments)).get? name).isSome := by
  have contained : (parameterNames parameters).contains name := by
    simp [Table.contains, ready]
  obtain ⟨p, member, rfl⟩ := parameterNames_contains contained
  apply Table.contains_ofList
  rw [List.map_fst_zip (by simp [arity])]
  exact List.mem_map_of_mem member

/-- The body of a function runs inside the levels of its declaration, in a new frame. -/
theorem SoundIn.functionBody {f : Function} {arguments : List Value}
    (sound : run.SoundIn ⟨fuel + 1, .callFunction f arguments, m⟩ levels scopes) :
    run.Sound ⟨fuel, .executeAll f.declaration.body, bodyEntered f arguments m⟩ := by
  obtain ⟨⟨levels', scopes', made, mirrored, included⟩, values, arity⟩ := sound.task
  let names := f.declaration.parameters.map Token.lexeme
  let bindings : Table Value := .ofList (names.zip arguments)
  have kept := Store.Kept.newFrame m.store (some f.closure) bindings
  have entered : (bodyEntered f arguments m).current = ⟨m.store.frames.size⟩ := rfl
  refine ⟨⟨.routine f.declaration, parameterNames f.declaration.parameters⟩ :: levels', _,
    sound.plain, .routine sound.opened .functionBody made, ?_, ?_, ?_⟩
  · refine .inside rfl rfl trivial ?_ ?_ (mirrored.grown kept)
    · intro name ready
      change (Store.read? (m.store.newFrame (some f.closure) bindings).2 _ _).isSome
      rw [Store.read?_newFrame, if_pos (congrArg FrameId.index entered)]
      exact parameters_bound arity ready
    · change (m.store.newFrame (some f.closure) bindings).2.enclosing? _ = _
      rw [Store.enclosing?_newFrame, if_pos (congrArg FrameId.index entered)]
  · apply sound.store.newFrame (some f.closure)
    intro name v found
    exact values v (List.of_mem_zip (Table.mem_of_get?_ofList found)).2
  · obtain ⟨id, ⟨name, parameters, body⟩, closure, isInitializer⟩ := f
    exact included

theorem arity_of_initializer {c : Class} {method : Function}
    (found : c.findMethod? initializerName = some method) : c.arity = method.arity := by
  simp [Class.arity, found]

/-- An instance has been made, and the initializer of its class is called, bound to it. -/
theorem SoundIn.initializer {c : Class} {arguments : List Value} {method bound : Function}
    {i : Instance} {made after : Store}
    (sound : run.SoundIn ⟨fuel + 1, .invoke (.class_ c) arguments, m⟩ levels scopes)
    (found : c.findMethod? initializerName = some method) (fresh : m.store.newInstance c = (i, made))
    (bind : made.bindMethod method i = (bound, after)) :
    run.Sound ⟨fuel, .callFunction bound arguments, { m with store := after }⟩ := by
  obtain ⟨classSound, values, arity⟩ := sound.task
  have made_sound : run.StoreSound made := by
    have kept := sound.store.newInstance c
    rwa [fresh] at kept
  have grown : m.store.Kept made := by
    have kept := Store.Kept.newInstance m.store c
    rwa [fresh] at kept
  have unbound : run.MethodSound made method := (classSound _ _ found).2.grown grown
  have instanceSound : run.InstanceSound made i := by
    have sound := classSound.made
    rwa [fresh] at sound
  have gives := bindMethod_gives (m := { m with store := made }) made_sound sound.opened
    (.initializer fresh found) unbound instanceSound
  have ended : onStore (fun s => s.bindMethod method i) { m with store := made } =
      .ok bound { m with store := after } := by
    simp only [onStore, bind]
  obtain ⟨growing, kept, boundSound⟩ := Ends.ok_of gives ended
  have left : run.Left m { m with store := after } := ⟨rfl, grown.trans growing, kept⟩
  have arity' : arguments.length = bound.arity := by
    have same : bound.arity = method.arity := by
      cases bind
      rfl
    rw [same, ← arity_of_initializer found]
    exact arity
  exact ⟨levels, scopes, sound.resume left (.initializer found fresh bind) id
    ⟨boundSound, fun v member => (values v member).grown left.grown, arity'⟩⟩

section
variable (all : run.AllDeliver fuel) (sound : run.SoundIn ⟨fuel + 1, task, m⟩ levels scopes)
include all sound

/-- A moment that is entered from a sound one is sound. -/
theorem SoundIn.enter {inner : Moment} (enters : Enters ⟨fuel + 1, task, m⟩ inner) :
    run.Sound inner := by
  have fit := sound.task
  cases enters with
  | grouping => exact ⟨_, _, sound.start .grouping id fit⟩
  | unary => exact ⟨_, _, sound.start .unary id fit⟩
  | binaryLeft => exact ⟨_, _, sound.start .binaryLeft id (List.append_subset.mp fit).1⟩
  | binaryRight first =>
    obtain ⟨left, right⟩ := List.append_subset.mp fit
    have before := (sound.start .binaryLeft id left).evaluated all first
    exact ⟨_, _, sound.resume before.1 (.binaryRight first) id right⟩
  | logicalLeft => exact ⟨_, _, sound.start .logicalLeft id (List.append_subset.mp fit).1⟩
  | logicalRight first undecided =>
    obtain ⟨left, right⟩ := List.append_subset.mp fit
    have before := (sound.start .logicalLeft id left).evaluated all first
    exact ⟨_, _, sound.resume before.1 (.logicalRight first undecided) id right⟩
  | condition => exact ⟨_, _, sound.start .condition id (List.append_subset.mp fit).1⟩
  | thenValue first truthy =>
    obtain ⟨test, branches⟩ := List.append_subset.mp fit
    have before := (sound.start .condition id test).evaluated all first
    exact ⟨_, _, sound.resume before.1 (.thenValue first truthy) id (List.append_subset.mp branches).1⟩
  | elseValue first falsy =>
    obtain ⟨test, branches⟩ := List.append_subset.mp fit
    have before := (sound.start .condition id test).evaluated all first
    exact ⟨_, _, sound.resume before.1 (.elseValue first falsy) id (List.append_subset.mp branches).2⟩
  | assigned => exact ⟨_, _, sound.start .assigned id (List.append_subset.mp fit).1⟩
  | callee => exact ⟨_, _, sound.start .callee id (List.append_subset.mp fit).1⟩
  | arguments first =>
    obtain ⟨callee, arguments⟩ := List.append_subset.mp fit
    have before := (sound.start .callee id callee).evaluated all first
    exact ⟨_, _, sound.resume before.1 (.arguments first) id arguments⟩
  | called first rest =>
    obtain ⟨callee, arguments⟩ := List.append_subset.mp fit
    have before := (sound.start .callee id callee).evaluated all first
    have listed := (sound.resume before.1 (.arguments first) id arguments).evaluatedAll all rest
    exact ⟨_, _, sound.resume (before.1.trans listed.1) (.called first rest) id
      ⟨before.2.grown listed.1.grown, listed.2⟩⟩
  | getObject => exact ⟨_, _, sound.start .getObject id fit⟩
  | setObject => exact ⟨_, _, sound.start .setObject id (List.append_subset.mp fit).2⟩
  | setValue first =>
    obtain ⟨value, object⟩ := List.append_subset.mp fit
    have before := (sound.start .setObject id object).evaluated all first
    exact ⟨_, _, sound.resume before.1 (.setValue first) id value⟩
  | firstValue => exact ⟨_, _, sound.start .firstValue id (List.append_subset.mp fit).1⟩
  | laterValues first =>
    obtain ⟨one, others⟩ := List.append_subset.mp fit
    have before := (sound.start .firstValue id one).evaluated all first
    exact ⟨_, _, sound.resume before.1 (.laterValues first) id others⟩
  | @invoked _ _ callee line arguments f checked =>
    obtain ⟨callable, arity, _, _⟩ := checkCall_eq_ok_iff.mp checked
    have left : run.Left m { m with activeCalls := m.activeCalls + 1 } := ⟨rfl, .refl _, sound.store⟩
    have callableSound : run.CallableSound m.store f := by
      cases callee with
      | native g => cases callable; trivial
      | function g => cases callable; exact fit.1
      | class_ c => cases callable; exact fit.1
      | _ => cases callable
    exact ⟨_, _, sound.resume left (.invoked checked) id ⟨callableSound, fit.2, arity⟩⟩
  | function => exact ⟨_, _, sound.start .function id fit⟩
  | initializer found fresh bind => exact sound.initializer found fresh bind
  | functionBody => exact sound.functionBody
  | expression => exact ⟨_, _, sound.start .expression id fit⟩
  | printed => exact ⟨_, _, sound.start .printed id fit⟩
  | @«variable» _ _ name e =>
    -- the name is declared already, but not ready in its own initializer
    have pending : Mirrored run.first.globals m.store (markIn name.lexeme false levels) scopes m.current :=
      sound.mirrored.markIn nofun
    exact ⟨_, _, sound.plain, .enter sound.opened .variable id, pending, sound.store, fit⟩
  | block => exact sound.block
  | @test _ _ condition thenBranch elseBranch =>
    cases elseBranch <;>
      exact ⟨_, _, sound.start .test id (List.append_subset.mp fit).1⟩
  | @thenBranch _ _ condition thenBranch elseBranch a next first truthy =>
    cases elseBranch with
    | none =>
      obtain ⟨test, chosen⟩ := List.append_subset.mp fit
      have before := (sound.start .test id test).evaluated all first
      exact ⟨_, _, sound.resume before.1 (.thenBranch first truthy) id chosen⟩
    | some s =>
      obtain ⟨test, branches⟩ := List.append_subset.mp fit
      have before := (sound.start .test id test).evaluated all first
      exact ⟨_, _, sound.resume before.1 (.thenBranch first truthy) id (List.append_subset.mp branches).1⟩
  | elseBranch first falsy =>
    obtain ⟨test, branches⟩ := List.append_subset.mp fit
    have before := (sound.start .test id test).evaluated all first
    exact ⟨_, _, sound.resume before.1 (.elseBranch first falsy) id (List.append_subset.mp branches).2⟩
  | loop => exact ⟨_, _, sound.start .loop id (List.append_subset.mp fit)⟩
  | returned => exact ⟨_, _, sound.start .returned id fit⟩
  | firstStatement => exact ⟨_, _, sound.start .firstStatement id (List.append_subset.mp fit).1⟩
  | laterStatements first =>
    obtain ⟨one, others⟩ := List.append_subset.mp fit
    obtain ⟨left, bound⟩ := (sound.start .firstStatement id one).executed all first
    -- what the first statement declares is bound by now, so it may be ready
    have mirrored := (sound.mirrored.grown left.grown).behind bound
    rw [← left.current] at mirrored
    exact ⟨_, _, sound.plain, .enter sound.opened (.laterStatements first) id, mirrored, left.store, others⟩
  | round => exact ⟨_, _, sound.start .round id fit.1⟩
  | roundBody first truthy =>
    have before := (sound.start .round id fit.1).evaluated all first
    exact ⟨_, _, sound.resume before.1 (.roundBody first truthy) id fit.2⟩
  | laterRounds first truthy rest =>
    have before := (sound.start .round id fit.1).evaluated all first
    have middle := sound.resume before.1 (.roundBody first truthy) id fit.2
    have after := middle.executed all rest
    exact ⟨_, _, sound.resume (before.1.trans after.1) (.laterRounds first truthy rest) id fit⟩

end

end LoxLang.Eval.Run
