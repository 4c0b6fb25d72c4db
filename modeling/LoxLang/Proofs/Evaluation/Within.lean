import LoxLang.Evaluation
import LoxLang.Proofs.Ends
import LoxLang.Proofs.Scope.Place
import LoxLang.Proofs.Store.Holder

/-! Relations between the machine before a part of a run and the machine after it.
A relation that every primitive step keeps, and that entering a frame or a call passes on, holds
across every evaluation, call, statement and loop, whichever way it ends. The one induction over the
evaluator is here; what a run leaves alone is then a matter of the primitive steps. A statement may be
held to less than an expression, by the names that it declares in the scope around it: what it declares
in a new frame is no concern of the scopes that were there before. -/
namespace LoxLang

namespace Eval

variable {α β : Type} {R : Machine → Machine → Prop}

/-- However the part ends, the machine it ends in is related to the machine it started in. -/
def Within (R : Machine → Machine → Prop) (part : Eval α) : Prop :=
  ∀ m, Ends part m (fun _ after => R m after) (fun _ after => R m after)

/-- Steps one after the other pass the relation on. -/
structure Chained (R : Machine → Machine → Prop) : Prop where
  refl : ∀ m, R m m
  trans : ∀ {m before after}, R m before → R before after → R m after

/-- What a relation must satisfy to hold across the steps that bind no new name in a frame that is
there: they give new values only to names that are bound. -/
structure Calm (R : Machine → Machine → Prop) : Prop extends Chained R where
  newFrame : ∀ m enclosing bindings,
    R m { m with store := (m.store.newFrame (some enclosing) bindings).2 }
  rebind : ∀ m frame name v, m.store.binds frame name →
    R m { m with store := m.store.define frame name v }
  newFunction : ∀ m declaration closure isInitializer,
    R m { m with store := (m.store.newFunction declaration closure isInitializer).2 }
  newClass : ∀ m name superclass methods,
    R m { m with store := (m.store.newClass name superclass methods).2 }
  newInstance : ∀ m cls, R m { m with store := (m.store.newInstance cls).2 }
  setField : ∀ m i name v, R m { m with store := m.store.setField i name v }
  write : ∀ m text, R m { m with output := (m.output.write text).2 }
  readClock : ∀ m, R m { m with clockReadings := m.clockReadings + 1 }
  aside : ∀ m frame after, R { m with current := frame } after → R m { after with current := m.current }
  inCall : ∀ m after, R { m with activeCalls := m.activeCalls + 1 } after →
    R m { after with activeCalls := after.activeCalls - 1 }

/-- What two relations must satisfy for the first to hold across every expression and call, and the
second across every statement, with the names that it declares in the scope around it. -/
structure Confined (R : Machine → Machine → Prop) (S : List Token → Machine → Machine → Prop) : Prop
    extends Calm R where
  still : ∀ {names m after}, R m after → S names m after
  chain : ∀ {names m before after}, S names m before → S names before after → S names m after
  widen : ∀ {names more m after}, names ⊆ more → S names m after → S more m after
  declare : ∀ m (name : Token) v, S [name] m { m with store := m.store.define m.current name.lexeme v }
  /-- Statements run in a frame that is new. -/
  inFrame : ∀ m enclosing bindings names after,
    S names { m with
      store := (m.store.newFrame (some enclosing) bindings).2, current := ⟨m.store.frames.size⟩ } after →
    R m { after with current := m.current }

/-- What a relation must satisfy to hold across every part of a run. -/
structure Steady (R : Machine → Machine → Prop) : Prop where
  refl : ∀ m, R m m
  trans : ∀ {m before after}, R m before → R before after → R m after
  newFrame : ∀ m enclosing bindings,
    R m { m with store := (m.store.newFrame (some enclosing) bindings).2 }
  define : ∀ m frame name v, R m { m with store := m.store.define frame name v }
  newFunction : ∀ m declaration closure isInitializer,
    R m { m with store := (m.store.newFunction declaration closure isInitializer).2 }
  newClass : ∀ m name superclass methods,
    R m { m with store := (m.store.newClass name superclass methods).2 }
  newInstance : ∀ m cls, R m { m with store := (m.store.newInstance cls).2 }
  setField : ∀ m i name v, R m { m with store := m.store.setField i name v }
  write : ∀ m text, R m { m with output := (m.output.write text).2 }
  readClock : ∀ m, R m { m with clockReadings := m.clockReadings + 1 }
  inFrame : ∀ m frame after, R { m with current := frame } after → R m { after with current := m.current }
  inCall : ∀ m after, R { m with activeCalls := m.activeCalls + 1 } after →
    R m { after with activeCalls := after.activeCalls - 1 }

/-- A part inside a frame ends as the part does there, and then puts the frame from before back. -/
theorem inFrame_ends {frame : FrameId} {part : Eval α} {m : Machine} {ok : α → Machine → Prop}
    {failed : Interruption → Machine → Prop}
    (inner : Ends part { m with current := frame } (fun a after => ok a { after with current := m.current })
      fun e after => failed e { after with current := m.current }) :
    Ends (inFrame frame part) m ok failed := by
  unfold Ends at inner
  unfold Ends inFrame
  dsimp only
  split at inner
  · next ended =>
    rw [ended]
    exact inner
  · next ended =>
    rw [ended]
    exact inner

/-- A part in a call ends as the part does with one more active call, and is then counted off. -/
theorem inCall_ends {part : Eval α} {m : Machine} {ok : α → Machine → Prop}
    {failed : Interruption → Machine → Prop}
    (inner : Ends part { m with activeCalls := m.activeCalls + 1 }
      (fun a after => ok a { after with activeCalls := after.activeCalls - 1 })
      fun e after => failed e { after with activeCalls := after.activeCalls - 1 }) :
    Ends (inCall part) m ok failed := by
  unfold Ends at inner
  unfold Ends inCall
  split at inner
  · next ended =>
    rw [ended]
    exact inner
  · next ended =>
    rw [ended]
    exact inner

theorem inFrame_of_ok {frame : FrameId} {part : Eval α} {m after : Machine} {a : α}
    (ended : part { m with current := frame } = .ok a after) :
    inFrame frame part m = .ok a { after with current := m.current } := by
  simp only [inFrame, ended]

theorem inFrame_of_error {frame : FrameId} {part : Eval α} {m after : Machine} {e : Interruption}
    (ended : part { m with current := frame } = .error e after) :
    inFrame frame part m = .error e { after with current := m.current } := by
  simp only [inFrame, ended]

theorem inCall_of_ok {part : Eval α} {m after : Machine} {a : α}
    (ended : part { m with activeCalls := m.activeCalls + 1 } = .ok a after) :
    inCall part m = .ok a { after with activeCalls := after.activeCalls - 1 } := by
  simp only [inCall, ended]

theorem inCall_of_error {part : Eval α} {m after : Machine} {e : Interruption}
    (ended : part { m with activeCalls := m.activeCalls + 1 } = .error e after) :
    inCall part m = .error e { after with activeCalls := after.activeCalls - 1 } := by
  simp only [inCall, ended]

/-- A part inside a frame that gives a result gives what it gives there. -/
theorem inFrame_eq_ok {frame : FrameId} {part : Eval α} {m last : Machine} {a : α}
    (ended : inFrame frame part m = .ok a last) :
    ∃ after, part { m with current := frame } = .ok a after ∧ last = { after with current := m.current } := by
  simp only [inFrame] at ended
  split at ended
  · next given =>
    cases ended
    exact ⟨_, given, rfl⟩
  · cases ended

/-- A call that gives a result gives what the part gives as one more active call. -/
theorem inCall_eq_ok {part : Eval α} {m last : Machine} {a : α} (ended : inCall part m = .ok a last) :
    ∃ after, part { m with activeCalls := m.activeCalls + 1 } = .ok a after ∧
      last = { after with activeCalls := after.activeCalls - 1 } := by
  simp only [inCall] at ended
  split at ended
  · next given =>
    cases ended
    exact ⟨_, given, rfl⟩
  · cases ended

/-- A call that passes its checks is one of something callable, with as many arguments as it takes, while
fewer calls than may be are active. Checking changes nothing. -/
theorem checkCall_eq_ok_iff {callee : Value} {line : Nat} {arguments : List Value} {f : Callable}
    {m after : Machine} : checkCall callee line arguments m = .ok f after ↔
      callee.callable? = some f ∧ arguments.length = f.arity ∧ m.activeCalls < maxActiveCalls ∧ after = m := by
  unfold checkCall
  cases callee.callable? with
  | none => exact ⟨nofun, nofun⟩
  | some g =>
    dsimp only
    split
    · next miscounted =>
      refine ⟨nofun, ?_⟩
      rintro ⟨⟨⟩, counted, _⟩
      exact absurd counted miscounted
    · next counted =>
      rw [bind_of_ok (show (get : Eval Machine) m = .ok m m from rfl)]
      split
      · next full => exact ⟨nofun, fun ⟨_, _, room, _⟩ => absurd full (Nat.not_le.mpr room)⟩
      · next room =>
        constructor
        · rintro ⟨⟩
          exact ⟨rfl, Decidable.not_not.mp counted, Nat.lt_of_not_le room, rfl⟩
        · rintro ⟨⟨⟩, _, _, rfl⟩
          rfl

/-- Closing methods does not fail, and neither does making a class of them. -/
theorem closeMethods_ok (methods : List Declaration) (m : Machine) :
    ∃ closed after, closeMethods methods m = .ok closed after := by
  induction methods generalizing m with
  | nil => exact ⟨_, _, rfl⟩
  | cons d rest ih =>
    have closure : currentFrame m = .ok m.current m := rfl
    let made := m.store.newFunction d m.current (d.name.lexeme = initializerName)
    have making : onStore (fun s => s.newFunction d m.current (d.name.lexeme = initializerName)) m =
      .ok made.1 { m with store := made.2 } := rfl
    obtain ⟨closed, after, ended⟩ := ih { m with store := made.2 }
    refine ⟨(d.name.lexeme, made.1) :: closed, after, ?_⟩
    rw [closeMethods, bind_of_ok closure, bind_of_ok making, bind_of_ok ended]
    rfl

theorem closeClass_ok (name : String) (parent : Option Class) (methods : List Declaration) (m : Machine) :
    ∃ c after, closeClass name parent methods m = .ok c after := by
  obtain ⟨closed, after, ended⟩ := closeMethods_ok methods m
  exact ⟨_, _, bind_of_ok ended⟩

theorem methodFrame_ok (parent : Option Class) (m : Machine) :
    ∃ frame after, methodFrame parent m = .ok frame after ∧ after.current = m.current := by
  cases parent with
  | none => exact ⟨_, _, rfl, rfl⟩
  | some c => exact ⟨_, _, rfl, rfl⟩

/-- While a class is made, its methods' frame is the current one, and nothing fails before the frame from
before is put back. -/
theorem makeClass_eq (name : String) (parent : Option Class) (methods : List Declaration) :
    makeClass name parent methods =
      methodFrame parent >>= fun frame => inFrame frame (closeClass name parent methods) := by
  funext m
  obtain ⟨frame, framed, framing, same⟩ := methodFrame_ok parent m
  obtain ⟨c, after, made⟩ := closeClass_ok name parent methods { framed with current := frame }
  have previous : currentFrame m = .ok m.current m := rfl
  have entered : setFrame frame framed = .ok () { framed with current := frame } := rfl
  rw [makeClass, bind_of_ok previous, bind_of_ok framing, bind_of_ok framing, bind_of_ok entered,
    bind_of_ok made, inFrame_of_ok made, same]
  rfl

/-- The steps of a class declaration, each from where the one before it ended. -/
theorem defineClass_of_ok {name : Token} {clause : Option Reference} {methods : List Declaration}
    {parent : Option Class} {c : Class} {m started named made last : Machine}
    (above : superclass clause m = .ok parent started) (naming : define name .nil started = .ok () named)
    (making : makeClass name.lexeme parent methods named = .ok c made)
    (assigning : assignNearest name (.class_ c) made = .ok () last) :
    defineClass name clause methods m = .ok () last := by
  rw [defineClass, bind_of_ok above, bind_of_ok naming, bind_of_ok making, assigning]

theorem Within.onStore {change : Store → α × Store}
    (changes : ∀ m : Machine, R m { m with store := (change m.store).2 }) :
    Within R (Eval.onStore change) :=
  fun m => changes m

namespace Chained

variable (chained : Chained R)
include chained

theorem pure (a : α) : Within R (Pure.pure a : Eval α) := fun m => chained.refl m

theorem throw (e : Interruption) : Within R (MonadExcept.throw e : Eval α) := fun m => chained.refl m

theorem fail (cause : RuntimeError.Cause) (line : Nat) : Within R (Eval.fail cause line : Eval α) :=
  chained.throw _

theorem exhausted : Within R (Eval.exhausted : Eval α) := chained.throw _

theorem get : Within R (MonadState.get : Eval Machine) := fun m => chained.refl m

theorem currentFrame : Within R Eval.currentFrame := fun m => chained.refl m

theorem bind {part : Eval α} {next : α → Eval β} (first : Within R part)
    (rest : ∀ a, Within R (next a)) : Within R (part >>= next) := by
  intro m
  apply Ends.bind ((first m).mono (fun _ _ => id) (fun _ _ => id))
  intro a middle _ before
  exact (rest a middle).mono (fun _ _ => chained.trans before) (fun _ _ => chained.trans before)

theorem ofOption (found : Option Value) (cause : RuntimeError.Cause) (line : Nat) :
    Within R (Eval.ofOption found cause line) := by
  cases found with
  | some v => exact chained.pure v
  | none => exact chained.fail cause line

theorem ofExcept (result : Except RuntimeError Value) : Within R (Eval.ofExcept result) := by
  cases result with
  | ok v => exact chained.pure v
  | error e => exact chained.throw _

theorem lookUp (r : Reference) : Within R (Eval.lookUp r) :=
  fun m => chained.ofOption _ _ _ m

theorem superclass (clause : Option Reference) : Within R (Eval.superclass clause) := by
  cases clause with
  | none => exact chained.pure none
  | some r =>
    apply chained.bind (chained.lookUp r)
    intro v
    split
    · exact chained.pure _
    · exact chained.fail _ _

theorem checkCall (callee : Value) (line : Nat) (arguments : List Value) :
    Within R (Eval.checkCall callee line arguments) := by
  unfold Eval.checkCall
  split
  · exact chained.fail _ _
  split
  · exact chained.fail _ _
  apply chained.bind chained.get
  intro m
  split
  · exact chained.fail _ _
  · exact chained.pure _

end Chained

namespace Calm

variable (calm : Calm R)
include calm

/-- Overwriting gives a bound name a new value or does nothing. -/
theorem overwrite {name : Token} {v : Value} {holder : Store → Option FrameId}
    (held : ∀ s, ∀ frame ∈ holder s, s.binds frame name.lexeme) :
    Within R (Eval.overwrite name fun s => s.overwrite (holder s) name.lexeme v) := by
  have writes (m : Machine) : R m { m with store := (m.store.overwrite (holder m.store) name.lexeme v).2 } := by
    cases found : holder m.store with
    | some frame => exact calm.rebind m frame name.lexeme v (held m.store frame found)
    | none => exact calm.refl m
  apply calm.bind (.onStore writes)
  intro written
  cases written with
  | true => exact calm.pure ()
  | false => exact calm.fail _ _

theorem assign (r : Reference) (v : Value) : Within R (Eval.assign r v) := by
  apply calm.bind calm.get
  intro m
  dsimp only
  cases m.depths[r.id]? with
  | some distance =>
    simp only [Store.assignAt_eq]
    exact calm.overwrite fun s frame held => Store.binds_of_holderAt? held
  | none =>
    simp only [Store.assign_eq]
    exact calm.overwrite fun s frame held => Store.binds_of_holder? held

theorem assignNearest (name : Token) (v : Value) : Within R (Eval.assignNearest name v) := by
  apply calm.bind calm.currentFrame
  intro frame
  simp only [Store.assign_eq]
  exact calm.overwrite fun s frame held => Store.binds_of_holder? held

theorem print (v : Value) : Within R (Eval.print v) := by
  intro m
  unfold Eval.print
  have written := calm.write m (v.display ++ "\n")
  cases whole : (m.output.write (v.display ++ "\n")).1 with
  | true => exact .of_ok (by simp [whole]; rfl) written
  | false => exact .of_error (by simp [whole]; rfl) written

theorem bindMethod (method : Function) (i : Instance) :
    Within R (Eval.onStore fun s => s.bindMethod method i) :=
  .onStore fun m => calm.trans (calm.newFrame m method.closure [("this", .instance_ i)])
    (calm.newFunction _ _ _ _)

theorem property (i : Instance) (name : Token) : Within R (Eval.property i name) := by
  apply calm.bind calm.get
  intro m
  split
  · exact calm.pure _
  · exact calm.bind (calm.bindMethod _ _) fun f => calm.pure _
  · exact calm.fail _ _

theorem setProperty (i : Instance) (name : Token) (v : Value) :
    Within R (Eval.setProperty i name v) :=
  fun m => calm.setField m i name.lexeme v

theorem superMethod (keyword : Reference) (method : Token) :
    Within R (Eval.superMethod keyword method) := by
  apply calm.bind calm.get
  intro m
  dsimp only
  split
  · exact calm.fail _ _
  apply calm.bind (calm.ofOption _ _ _)
  intro parent
  apply calm.bind (calm.ofOption _ _ _)
  intro object
  split
  · split
    · exact calm.bind (calm.bindMethod _ _) fun f => calm.pure _
    · exact calm.fail _ _
  · exact calm.fail _ _

theorem methodFrame (parent : Option Class) : Within R (Eval.methodFrame parent) := by
  cases parent with
  | none => exact calm.currentFrame
  | some c =>
    apply calm.bind calm.currentFrame
    intro frame
    exact .onStore fun m => calm.newFrame m frame _

theorem counted {part : Eval α} (within : Within R part) : Within R (Eval.inCall part) := by
  intro m
  apply inCall_ends
  apply (within { m with activeCalls := m.activeCalls + 1 }).mono
  · exact fun _ after held => calm.inCall m after held
  · exact fun _ after held => calm.inCall m after held

theorem elsewhere {part : Eval α} (within : Within R part) (frame : FrameId) :
    Within R (Eval.inFrame frame part) := by
  intro m
  apply inFrame_ends
  apply (within { m with current := frame }).mono
  · exact fun _ after held => calm.aside m frame after held
  · exact fun _ after held => calm.aside m frame after held

theorem closeMethods (methods : List Declaration) : Within R (Eval.closeMethods methods) := by
  induction methods with
  | nil => exact calm.pure []
  | cons d rest ih =>
    apply calm.bind calm.currentFrame
    intro closure
    apply calm.bind (.onStore fun m => calm.newFunction m d closure _)
    intro f
    exact calm.bind ih fun closed => calm.pure _

theorem closeClass (name : String) (parent : Option Class) (methods : List Declaration) :
    Within R (Eval.closeClass name parent methods) := by
  apply calm.bind (calm.closeMethods methods)
  intro closed
  exact .onStore fun m => calm.newClass m name parent (.ofList closed)

theorem makeClass (name : String) (parent : Option Class) (methods : List Declaration) :
    Within R (Eval.makeClass name parent methods) := by
  rw [makeClass_eq]
  apply calm.bind (calm.methodFrame parent)
  intro frame
  exact calm.elsewhere (calm.closeClass name parent methods) frame

end Calm

variable {S : List Token → Machine → Machine → Prop}

/-- `R` holds across every expression and call with this much fuel, and `S` across every statement. -/
structure AllConfined (R : Machine → Machine → Prop) (S : List Token → Machine → Machine → Prop)
    (fuel : Nat) : Prop where
  evaluate : ∀ e, Within R (evaluate fuel e)
  evaluateAll : ∀ es, Within R (evaluateAll fuel es)
  call : ∀ callee line arguments, Within R (call fuel callee line arguments)
  invoke : ∀ callee arguments, Within R (invoke fuel callee arguments)
  callFunction : ∀ f arguments, Within R (callFunction fuel f arguments)
  execute : ∀ s, Within (S s.declarations) (execute fuel s)
  executeAll : ∀ body, Within (S (body.flatMap Stmt.declarations)) (executeAll fuel body)
  loop : ∀ condition body, Within (S body.declarations) (loop fuel condition body)

theorem Within.mono {R' : Machine → Machine → Prop} {part : Eval α} (within : Within R part)
    (weaker : ∀ {m after}, R m after → R' m after) : Within R' part :=
  fun m => (within m).mono (fun _ _ => weaker) fun _ _ => weaker

namespace Confined

section
variable (confined : Confined R S)
include confined

theorem chained (names : List Token) : Chained (S names) where
  refl m := confined.still (confined.refl m)
  trans := confined.chain

/-- A part that `R` holds across, before one that `S` holds across. -/
theorem first {part : Eval α} {next : α → Eval β} {names : List Token} (one : Within R part)
    (rest : ∀ a, Within (S names) (next a)) : Within (S names) (part >>= next) :=
  (confined.chained names).bind (one.mono confined.still) rest

theorem define (name : Token) (v : Value) : Within (S [name]) (Eval.define name v) :=
  fun m => confined.declare m name v

theorem defineFunction (d : Declaration) : Within (S [d.name]) (Eval.defineFunction d) := by
  apply confined.first confined.currentFrame
  intro closure
  apply confined.first (.onStore fun m => confined.newFunction m d closure false)
  intro f
  exact confined.define d.name (.function f)

theorem defineClass (name : Token) (clause : Option Reference) (methods : List Declaration) :
    Within (S [name]) (Eval.defineClass name clause methods) := by
  apply confined.first (confined.superclass clause)
  intro parent
  apply (confined.chained [name]).bind (confined.define name .nil)
  intro _
  apply confined.first (confined.makeClass name.lexeme parent methods)
  intro c
  exact (confined.assignNearest name (.class_ c)).mono confined.still

/-- Statements that run in a new frame declare nothing outside of it. -/
theorem framed {part : Eval α} {names : List Token} (inner : Within (S names) part) (enclosing : FrameId)
    (bindings : Table Value) :
    Within R (newFrame enclosing bindings >>= fun frame => Eval.inFrame frame part) := by
  intro m
  have made : newFrame enclosing bindings m = .ok ⟨m.store.frames.size⟩
      { m with store := (m.store.newFrame (some enclosing) bindings).2 } := rfl
  apply Ends.of_eq _ (bind_of_ok made)
  apply inFrame_ends
  apply (inner _).mono
  · exact fun _ after held => confined.inFrame m enclosing bindings names after held
  · exact fun _ after held => confined.inFrame m enclosing bindings names after held

end

section
variable (confined : Confined R S) {fuel : Nat} (all : AllConfined R S fuel)
include confined all

theorem evaluate_succ (e : Expr) : Within R (evaluate (fuel + 1) e) := by
  rw [evaluate.eq_def]
  cases e with
  | literal l => exact confined.pure _
  | grouping inner => exact all.evaluate inner
  | unary operator right => exact confined.bind (all.evaluate right) fun _ => confined.ofExcept _
  | binary left operator right =>
    apply confined.bind (all.evaluate left)
    intro a
    exact confined.bind (all.evaluate right) fun b => confined.ofExcept _
  | logical left operator right =>
    apply confined.bind (all.evaluate left)
    intro a
    split
    · exact confined.pure a
    · exact all.evaluate right
  | conditional condition thenBranch elseBranch =>
    apply confined.bind (all.evaluate condition)
    intro test
    split
    · exact all.evaluate thenBranch
    · exact all.evaluate elseBranch
  | «variable» r => exact confined.lookUp r
  | assign r value =>
    apply confined.bind (all.evaluate value)
    intro v
    exact confined.bind (confined.assign r v) fun _ => confined.pure v
  | call callee paren arguments =>
    apply confined.bind (all.evaluate callee)
    intro f
    exact confined.bind (all.evaluateAll arguments) fun values => all.call f paren.line values
  | get object name =>
    apply confined.bind (all.evaluate object)
    intro v
    split
    · exact confined.property _ name
    · exact confined.fail _ _
  | set object name value =>
    apply confined.bind (all.evaluate object)
    intro v
    split
    · exact confined.bind (all.evaluate value) fun v =>
        confined.bind (confined.setProperty _ name v) fun _ => confined.pure v
    · exact confined.fail _ _
  | this r => exact confined.lookUp r
  | super r method => exact confined.superMethod r method

theorem evaluateAll_succ (es : List Expr) : Within R (evaluateAll (fuel + 1) es) := by
  cases es with
  | nil => exact confined.pure []
  | cons e rest =>
    apply confined.bind (all.evaluate e)
    intro v
    exact confined.bind (all.evaluateAll rest) fun values => confined.pure _

theorem call_succ (callee : Value) (line : Nat) (arguments : List Value) :
    Within R (call (fuel + 1) callee line arguments) := by
  apply confined.bind (confined.checkCall callee line arguments)
  intro f
  exact confined.counted (all.invoke f arguments)

theorem invoke_succ (callee : Callable) (arguments : List Value) :
    Within R (invoke (fuel + 1) callee arguments) := by
  cases callee with
  | native f => exact fun m => confined.readClock m
  | function f => exact all.callFunction f arguments
  | class_ c =>
    apply confined.bind (.onStore fun m => confined.newInstance m c)
    intro i
    split
    · exact confined.pure _
    · apply confined.bind (confined.bindMethod _ i)
      intro bound
      exact confined.bind (all.callFunction bound arguments) fun _ => confined.pure _

theorem callFunction_succ (f : Function) (arguments : List Value) :
    Within R (callFunction (fuel + 1) f arguments) := by
  have body := confined.framed (all.executeAll f.declaration.body) f.closure
    (.ofList ((f.declaration.parameters.map Token.lexeme).zip arguments))
  rw [callFunction, ← bind_assoc]
  apply confined.bind body
  intro completion
  split
  · exact confined.bind confined.get fun m => confined.ofOption _ _ _
  · cases completion with
    | returned v => exact confined.pure v
    | normal => exact confined.pure Value.nil

theorem execute_succ (s : Stmt) : Within (S s.declarations) (execute (fuel + 1) s) := by
  rw [execute.eq_def]
  have chained (names : List Token) := confined.chained names
  cases s with
  | expression e => exact confined.first (all.evaluate e) fun _ => (chained _).pure _
  | print e =>
    apply confined.first (all.evaluate e)
    intro v
    exact confined.first (confined.print v) fun _ => (chained _).pure _
  | var name initializer =>
    cases initializer with
    | none => exact (chained _).bind (confined.define name .nil) fun _ => (chained _).pure _
    | some e =>
      apply confined.first (all.evaluate e)
      intro v
      exact (chained _).bind (confined.define name v) fun _ => (chained _).pure _
  | block body =>
    apply confined.first confined.currentFrame
    intro outer
    exact (confined.framed (all.executeAll body) outer []).mono confined.still
  | if_ condition thenBranch elseBranch =>
    apply confined.first (all.evaluate condition)
    intro test
    cases elseBranch with
    | none =>
      split
      · exact all.execute thenBranch
      · exact (chained _).pure _
    | some elseBranch =>
      split
      · exact (all.execute thenBranch).mono (confined.widen (List.subset_append_left _ _))
      · exact (all.execute elseBranch).mono (confined.widen (List.subset_append_right _ _))
  | while_ condition body => exact all.loop condition body
  | function d =>
    obtain ⟨name, parameters, body⟩ := d
    exact (chained _).bind (confined.defineFunction ⟨name, parameters, body⟩) fun _ => (chained _).pure _
  | return_ keyword value =>
    cases value with
    | none => exact (chained _).pure _
    | some e => exact confined.first (all.evaluate e) fun v => (chained _).pure _
  | class_ name clause methods =>
    exact (chained _).bind (confined.defineClass name clause methods) fun _ => (chained _).pure _

theorem executeAll_succ (body : List Stmt) :
    Within (S (body.flatMap Stmt.declarations)) (executeAll (fuel + 1) body) := by
  cases body with
  | nil => exact (confined.chained _).pure _
  | cons s rest =>
    rw [List.flatMap_cons]
    apply (confined.chained _).bind ((all.execute s).mono (confined.widen (List.subset_append_left _ _)))
    intro completion
    cases completion with
    | normal => exact (all.executeAll rest).mono (confined.widen (List.subset_append_right _ _))
    | returned v => exact (confined.chained _).pure _

theorem loop_succ (condition : Expr) (body : Stmt) :
    Within (S body.declarations) (loop (fuel + 1) condition body) := by
  apply confined.first (all.evaluate condition)
  intro test
  split
  · apply (confined.chained _).bind (all.execute body)
    intro completion
    cases completion with
    | normal => exact all.loop condition body
    | returned v => exact (confined.chained _).pure _
  · exact (confined.chained _).pure _

end

/-- The two relations hold across every part of a run. -/
theorem allConfined (confined : Confined R S) (fuel : Nat) : AllConfined R S fuel := by
  induction fuel with
  | zero =>
    constructor
    case execute | executeAll | loop => intros; exact (confined.chained _).exhausted
    all_goals intros; exact confined.exhausted
  | succ fuel ih =>
    exact ⟨confined.evaluate_succ ih, confined.evaluateAll_succ ih, confined.call_succ ih,
      confined.invoke_succ ih, confined.callFunction_succ ih, confined.execute_succ ih,
      confined.executeAll_succ ih, confined.loop_succ ih⟩

end Confined

/-- The relation holds across every part of a run that has this much fuel. -/
structure AllWithin (R : Machine → Machine → Prop) (fuel : Nat) : Prop where
  evaluate : ∀ e, Within R (evaluate fuel e)
  evaluateAll : ∀ es, Within R (evaluateAll fuel es)
  call : ∀ callee line arguments, Within R (call fuel callee line arguments)
  invoke : ∀ callee arguments, Within R (invoke fuel callee arguments)
  callFunction : ∀ f arguments, Within R (callFunction fuel f arguments)
  execute : ∀ s, Within R (execute fuel s)
  executeAll : ∀ body, Within R (executeAll fuel body)
  loop : ∀ condition body, Within R (loop fuel condition body)

namespace Steady

theorem calm (steady : Steady R) : Calm R where
  refl := steady.refl
  trans := steady.trans
  newFrame := steady.newFrame
  rebind m frame name v _ := steady.define m frame name v
  newFunction := steady.newFunction
  newClass := steady.newClass
  newInstance := steady.newInstance
  setField := steady.setField
  write := steady.write
  readClock := steady.readClock
  aside := steady.inFrame
  inCall := steady.inCall

theorem confined (steady : Steady R) : Confined R fun _ => R where
  toCalm := steady.calm
  still := id
  chain := steady.trans
  widen _ := id
  declare m name v := steady.define m m.current name.lexeme v
  inFrame m enclosing bindings _ after held :=
    steady.trans (steady.newFrame m enclosing bindings)
      (steady.inFrame { m with store := (m.store.newFrame (some enclosing) bindings).2 } _ after held)

/-- A steady relation holds across every part of a run. -/
theorem allWithin (steady : Steady R) (fuel : Nat) : AllWithin R fuel :=
  have all := steady.confined.allConfined fuel
  ⟨all.evaluate, all.evaluateAll, all.call, all.invoke, all.callFunction, all.execute, all.executeAll,
    all.loop⟩

/-- A steady relation holds across the statements of a program. -/
theorem interpret (steady : Steady R) (fuel : Nat) (program : List Stmt) :
    Within R (interpret fuel program) := by
  induction program with
  | nil => exact steady.calm.pure ()
  | cons s rest ih => exact steady.calm.bind ((steady.allWithin fuel).execute s) fun _ => ih

end Steady

end Eval
end LoxLang
