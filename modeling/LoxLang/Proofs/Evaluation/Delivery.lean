import LoxLang.Proofs.Evaluation.Sound

/-! Every part of a run delivers: entered at a sound moment, it gives sound values. With that every
moment of a run is sound. -/
namespace LoxLang

/-- Operators give plain values. -/
theorem Operator.unary_sound {run : Eval.Run} {s : Store} {operator : Token} {v w : Value}
    (given : Operator.unary operator v = .ok w) : run.ValueSound s w := by
  unfold Operator.unary at given
  split at given
  · split at given
    · cases given
      trivial
    · cases given
  · cases given
    trivial
  · cases given

theorem Operator.add_sound {run : Eval.Run} {s : Store} {operator : Token} {v v' w : Value}
    (given : Operator.add operator v v' = .ok w) : run.ValueSound s w := by
  unfold Operator.add at given
  split at given <;> cases given <;> trivial

theorem Operator.arithmetic_sound {run : Eval.Run} {s : Store} {operator : Token} {a b : Float}
    {w : Value} (given : Operator.arithmetic operator a b = .ok w) : run.ValueSound s w := by
  unfold Operator.arithmetic at given
  split at given
  case h_4 | h_5 =>
    split at given
    · cases given
    · cases given
      trivial
  all_goals
    cases given
    try trivial

theorem Operator.binary_sound {run : Eval.Run} {s : Store} {operator : Token} {v v' w : Value}
    (given : Operator.binary operator v v' = .ok w) : run.ValueSound s w := by
  unfold Operator.binary at given
  split at given
  · exact Operator.add_sound given
  · cases given
    trivial
  · cases given
    trivial
  · split at given
    · exact Operator.arithmetic_sound given
    · cases given

namespace Eval.Run
open Scope

variable {run : Run} {fuel : Nat} {m : Machine} {levels : List Level} {scopes : List Activation}

theorem property_gives {object : Expr} {name : Token} {i : Instance} {next : Machine}
    (opened : run.Opened ⟨fuel + 1, .evaluate (.get object name), m⟩ scopes)
    (first : evaluate fuel object m = .ok (.instance_ i) next) (sound : run.StoreSound next.store)
    (instanceSound : run.InstanceSound next.store i) :
    run.Gives (property i name) next fun v after => run.ValueSound after.store v := by
  apply (get_gives sound).bind
  rintro _ _ _ _ ⟨rfl, rfl⟩
  split
  · next v _ field => exact .pure sound (sound.fields _ _ _ field)
  · next method absent found =>
    apply (bindMethod_gives sound opened (.property first absent found) (instanceSound.2 _ _ found).2
      instanceSound).bind
    intro f _ _ kept bound
    exact .pure kept bound
  · exact .throw _

theorem superMethod_gives {keyword : Reference} {method : Token}
    (sound : run.SoundIn ⟨fuel + 1, .evaluate (.super keyword method), m⟩ levels scopes) :
    run.Gives (superMethod keyword method) m fun v after => run.ValueSound after.store v := by
  have store : run.StoreSound m.store := sound.store
  have read {found : Option Value} {cause : RuntimeError.Cause} {line : Nat} :
      run.Gives (ofOption found cause line) m fun v after => m = after ∧ found = some v :=
    .ofOption store fun v same => ⟨rfl, same⟩
  apply (get_gives store).bind
  rintro _ _ _ _ ⟨rfl, rfl⟩
  dsimp only
  split
  · exact .throw _
  next distance located =>
  apply read.bind
  rintro parent _ _ _ ⟨rfl, above⟩
  apply read.bind
  rintro object _ _ _ ⟨rfl, receiver⟩
  cases parent with
  | class_ c =>
    cases object with
    | instance_ i =>
      obtain ⟨holder, held⟩ := Store.read_of_getAt? above
      obtain ⟨holder', held'⟩ := Store.read_of_getAt? receiver
      have parentSound : run.ClassSound m.store c := store.bound _ _ _ held
      have instanceSound : run.InstanceSound m.store i := store.bound _ _ _ held'
      dsimp only
      cases found : c.findMethod? method.lexeme with
      | none => exact .throw _
      | some f =>
        apply (bindMethod_gives store sound.opened (.super located above receiver found)
          (parentSound _ _ found).2 instanceSound).bind
        intro f _ _ kept bound
        exact .pure kept bound
    | _ => exact .throw _
  | _ => exact .throw _

section
variable (all : run.AllDeliver fuel)
include all

theorem evaluate_delivers {e : Expr} (sound : run.SoundIn ⟨fuel + 1, .evaluate e, m⟩ levels scopes) :
    run.Delivers ⟨fuel + 1, .evaluate e, m⟩ := by
  change run.Gives (evaluate (fuel + 1) e) m fun v after => run.ValueSound after.store v
  rw [evaluate.eq_def]
  cases e with
  | literal l => cases l <;> exact .pure sound.store trivial
  | grouping inner => exact all (sound.enter all .grouping)
  | unary operator right =>
    apply Gives.bind (all (sound.enter all .unary))
    intro v _ _ kept _
    exact .ofExcept kept fun _ => Operator.unary_sound
  | binary left operator right =>
    apply Gives.bind (all (sound.enter all .binaryLeft))
    intro a _ ended _ _
    apply Gives.bind (all (sound.enter all (.binaryRight ended)))
    intro b _ _ kept _
    exact .ofExcept kept fun _ => Operator.binary_sound
  | logical left operator right =>
    apply Gives.bind (all (sound.enter all .logicalLeft))
    intro a _ ended kept value
    split
    · exact .pure kept value
    · next undecided => exact all (sound.enter all (.logicalRight ended undecided))
  | conditional condition thenBranch elseBranch =>
    apply Gives.bind (all (sound.enter all .condition))
    intro a _ ended _ _
    split
    · next truthy => exact all (sound.enter all (.thenValue ended truthy))
    · next falsy => exact all (sound.enter all (.elseValue ended falsy))
  | «variable» r =>
    apply (lookUp_gives sound.store r).mono
    rintro v _ ⟨rfl, value⟩
    exact value
  | assign r value =>
    apply Gives.bind (all (sound.enter all .assigned))
    intro v _ _ kept value
    apply (assign_gives kept sound.names.1 value).kept.bind
    rintro _ _ _ kept ⟨_, grown⟩
    exact .pure kept (value.grown grown)
  | call callee paren arguments =>
    apply Gives.bind (all (sound.enter all .callee))
    intro f _ first _ _
    apply Gives.bind (all (sound.enter all (.arguments first)))
    intro values _ rest _ _
    exact all (sound.enter all (.called first rest))
  | get object name =>
    apply Gives.bind (all (sound.enter all .getObject))
    intro v _ ended kept value
    cases v with
    | instance_ i => exact property_gives sound.opened ended kept value
    | _ => exact .throw _
  | set object name value =>
    apply Gives.bind (all (sound.enter all .setObject))
    intro v _ ended _ _
    cases v with
    | instance_ i =>
      apply Gives.bind (all (sound.enter all (.setValue ended)))
      intro v after _ kept value
      have stored : run.Gives (setProperty i name v) after fun _ _ => True :=
        ⟨.setField _ _ _ _, kept.setField i name.lexeme value, trivial⟩
      apply stored.kept.bind
      rintro _ _ _ kept ⟨_, grown⟩
      exact .pure kept (value.grown grown)
    | _ => exact .throw _
  | this r =>
    apply (lookUp_gives sound.store r).mono
    rintro v _ ⟨rfl, value⟩
    exact value
  | super r method => exact superMethod_gives sound

theorem evaluateAll_delivers {es : List Expr}
    (sound : run.SoundIn ⟨fuel + 1, .evaluateAll es, m⟩ levels scopes) :
    run.Delivers ⟨fuel + 1, .evaluateAll es, m⟩ := by
  cases es with
  | nil => exact .pure sound.store nofun
  | cons e rest =>
    apply Gives.bind (all (sound.enter all .firstValue))
    intro v middle ended _ value
    apply Gives.bind (Gives.kept (all (sound.enter all (.laterValues ended))))
    rintro values _ _ kept ⟨others, grown⟩
    refine .pure kept ?_
    intro w member
    rcases List.mem_cons.mp member with rfl | later
    · exact value.grown grown
    · exact others w later

theorem call_delivers {callee : Value} {line : Nat} {arguments : List Value}
    (sound : run.SoundIn ⟨fuel + 1, .call callee line arguments, m⟩ levels scopes) :
    run.Delivers ⟨fuel + 1, .call callee line arguments, m⟩ := by
  change run.Gives (call (fuel + 1) callee line arguments) m fun v after => run.ValueSound after.store v
  apply (checkCall_gives sound.store callee line arguments).bind
  rintro f _ _ _ ⟨rfl, checked⟩
  exact Gives.inCall (all (sound.enter all (.invoked checked)))

theorem invoke_delivers {callee : Callable} {arguments : List Value}
    (sound : run.SoundIn ⟨fuel + 1, .invoke callee arguments, m⟩ levels scopes) :
    run.Delivers ⟨fuel + 1, .invoke callee arguments, m⟩ := by
  cases callee with
  | native f => exact ⟨.refl _, sound.store, trivial⟩
  | function f => exact all (sound.enter all .function)
  | class_ c =>
    have classSound : run.ClassSound m.store c := sound.task.1
    have made : run.Gives (onStore fun s => s.newInstance c) m fun i after =>
        run.InstanceSound after.store i ∧ m.store.newInstance c = (i, after.store) ∧
          after = { m with store := after.store } :=
      ⟨.newInstance _ c, sound.store.newInstance c, classSound.made, rfl, rfl⟩
    apply made.kept.bind
    rintro i next _ kept ⟨⟨instanceSound, fresh, rest⟩, grown⟩
    split
    · exact .pure kept instanceSound
    · next method found =>
      have bound : run.Gives (onStore fun s => s.bindMethod method i) next fun f after =>
          next.store.bindMethod method i = (f, after.store) ∧
            after = { m with store := after.store } := by
        have gives := bindMethod_gives kept sound.opened (.initializer fresh found)
          ((classSound _ _ found).2.grown grown) instanceSound
        refine ⟨gives.1, gives.2.1, rfl, ?_⟩
        rw [rest]
      apply bound.kept.bind
      rintro f after _ kept ⟨⟨bind, rest⟩, grown'⟩
      have entered := sound.enter all (.initializer found fresh bind)
      rw [← rest] at entered
      apply (Gives.kept (all entered)).bind
      rintro _ last _ kept ⟨_, grown''⟩
      exact .pure kept (InstanceSound.grown (grown'.trans grown'') instanceSound)

theorem callFunction_delivers {f : Function} {arguments : List Value}
    (sound : run.SoundIn ⟨fuel + 1, .callFunction f arguments, m⟩ levels scopes) :
    run.Delivers ⟨fuel + 1, .callFunction f arguments, m⟩ := by
  let bindings : Table Value := .ofList ((f.declaration.parameters.map Token.lexeme).zip arguments)
  have values : ∀ v ∈ arguments, run.ValueSound m.store v := sound.task.2.1
  have framed : run.Gives (newFrame f.closure bindings) m fun frame after =>
      { after with current := frame } = bodyEntered f arguments m := by
    refine ⟨.newFrame m.store (some f.closure) bindings, sound.store.newFrame (some f.closure) ?_, rfl⟩
    intro name v found
    exact values v (List.of_mem_zip (Table.mem_of_get?_ofList found)).2
  apply framed.bind
  intro frame after _ _ entered
  have body : run.Gives (inFrame frame (executeAll fuel f.declaration.body)) after fun c last =>
      run.CompletionSound last.store c := by
    apply Gives.inFrame
    rw [entered]
    exact all (sound.enter all .functionBody)
  apply body.bind
  intro completion last _ kept complete
  split
  · apply (get_gives kept).bind
    rintro _ _ _ _ ⟨rfl, rfl⟩
    apply Gives.ofOption kept
    intro v found
    obtain ⟨holder, held⟩ := Store.read_of_getAt? found
    exact kept.bound _ _ _ held
  · cases completion with
    | returned v => exact .pure kept complete
    | normal => exact .pure kept trivial

theorem execute_delivers {s : Stmt} (sound : run.SoundIn ⟨fuel + 1, .execute s, m⟩ levels scopes) :
    run.Delivers ⟨fuel + 1, .execute s, m⟩ := by
  change run.Gives (execute (fuel + 1) s) m fun c after => run.CompletionSound after.store c ∧
    ∀ t, s.declared? = some t → after.store.binds m.current t.lexeme
  have there : m.current.index < m.store.frames.size := sound.mirrored.there
  rw [execute.eq_def]
  cases s with
  | expression e =>
    apply Gives.bind (all (sound.enter all .expression))
    intro _ _ _ kept _
    exact .pure kept ⟨trivial, undeclared rfl⟩
  | print e =>
    apply Gives.bind (all (sound.enter all .printed))
    intro v _ _ kept _
    apply (print_gives kept v).bind
    intro _ _ _ kept _
    exact .pure kept ⟨trivial, undeclared rfl⟩
  | var name initializer =>
    cases initializer with
    | none =>
      have nil : run.ValueSound (m.store.define m.current name.lexeme .nil) .nil := trivial
      apply (define_gives sound.store sound.names.1 nil there).bind
      intro _ after _ kept bound
      refine .pure kept ⟨trivial, ?_⟩
      rintro _ ⟨⟩
      exact bound
    | some e =>
      apply Gives.bind (Gives.kept (all (sound.enter all .variable)))
      rintro v middle ended kept ⟨value, grown⟩
      -- the initializer may have run any code, but it is back in the frame of the declaration
      have same := (((allRestored fuel).evaluate e m).ok_of ended).current
      have there' : middle.current.index < middle.store.frames.size :=
        same ▸ Nat.lt_of_lt_of_le there grown.size
      have free := sound.names.1
      apply (define_gives kept free (value.grown (.define _ _ free v)) there').bind
      intro _ after _ kept bound
      refine .pure kept ⟨trivial, ?_⟩
      rintro _ ⟨⟩
      exact same ▸ bound
  | block body =>
    apply (currentFrame_gives sound.store).bind
    rintro _ _ _ _ ⟨rfl, rfl⟩
    have framed : run.Gives (newFrame m.current []) m fun frame after =>
        { after with current := frame } = blockEntered m := by
      refine ⟨.newFrame m.store (some m.current) [], sound.store.newFrame (some m.current) ?_, rfl⟩
      intro _ _ found
      cases found
    apply framed.bind
    intro frame after _ _ entered
    apply Gives.inFrame
    rw [entered]
    exact Gives.mono (all (sound.enter all .block)) fun c last complete => ⟨complete, undeclared rfl⟩
  | if_ condition thenBranch elseBranch =>
    apply Gives.bind (all (sound.enter all .test))
    intro v _ ended kept _
    split
    · next truthy =>
      exact Gives.mono (all (sound.enter all (.thenBranch ended truthy)))
        fun c last given => ⟨given.1, undeclared rfl⟩
    · next falsy =>
      cases elseBranch with
      | none => exact .pure kept ⟨trivial, undeclared rfl⟩
      | some s =>
        exact Gives.mono (all (sound.enter all (.elseBranch ended falsy)))
          fun c last given => ⟨given.1, undeclared rfl⟩
  | while_ condition body =>
    exact Gives.mono (all (sound.enter all .loop)) fun c last complete => ⟨complete, undeclared rfl⟩
  | function d =>
    have free : d.name.Unreserved := by
      cases d
      exact sound.names.1
    apply (defineFunction_gives sound.store free sound.opened sound.mirrored sound.task).bind
    intro _ _ _ kept bound
    refine .pure kept ⟨trivial, ?_⟩
    intro t declared
    rw [declared_function] at declared
    cases declared
    exact bound
  | return_ keyword value =>
    cases value with
    | none => exact .pure sound.store ⟨trivial, undeclared rfl⟩
    | some e =>
      apply Gives.bind (all (sound.enter all .returned))
      intro v _ _ kept value
      exact .pure kept ⟨value, undeclared rfl⟩
  | class_ name clause methods =>
    apply (defineClass_gives sound.store sound.names.1 sound.opened sound.mirrored sound.task).bind
    intro _ _ _ kept bound
    refine .pure kept ⟨trivial, ?_⟩
    rintro _ ⟨⟩
    exact bound

theorem executeAll_delivers {body : List Stmt}
    (sound : run.SoundIn ⟨fuel + 1, .executeAll body, m⟩ levels scopes) :
    run.Delivers ⟨fuel + 1, .executeAll body, m⟩ := by
  cases body with
  | nil => exact .pure sound.store trivial
  | cons s rest =>
    apply Gives.bind (all (sound.enter all .firstStatement))
    intro c _ ended kept given
    cases c with
    | normal => exact all (sound.enter all (.laterStatements ended))
    | returned v => exact .pure kept given.1

theorem loop_delivers {condition : Expr} {body : Stmt}
    (sound : run.SoundIn ⟨fuel + 1, .loop condition body, m⟩ levels scopes) :
    run.Delivers ⟨fuel + 1, .loop condition body, m⟩ := by
  apply Gives.bind (all (sound.enter all .round))
  intro v _ ended kept _
  split
  · next truthy =>
    apply Gives.bind (all (sound.enter all (.roundBody ended truthy)))
    intro c _ ended' kept given
    cases c with
    | normal => exact all (sound.enter all (.laterRounds ended truthy ended'))
    | returned v => exact .pure kept given.1
  · exact .pure kept trivial

end

/-- Whatever its fuel, every part that is entered soundly delivers. -/
theorem allDeliver (run : Run) (fuel : Nat) : run.AllDeliver fuel := by
  induction fuel with
  | zero =>
    intro task m _
    cases task <;> exact Gives.throw _
  | succ fuel ih =>
    rintro task m ⟨levels, scopes, sound⟩
    cases task with
    | evaluate e => exact evaluate_delivers ih sound
    | evaluateAll es => exact evaluateAll_delivers ih sound
    | call callee line arguments => exact call_delivers ih sound
    | invoke callee arguments => exact invoke_delivers ih sound
    | callFunction f arguments => exact callFunction_delivers ih sound
    | execute s => exact execute_delivers ih sound
    | executeAll body => exact executeAll_delivers ih sound
    | loop condition body => exact loop_delivers ih sound

theorem Sound.enter {outer inner : Moment} (sound : run.Sound outer) (enters : Enters outer inner) :
    run.Sound inner := by
  obtain ⟨fuel, task, m⟩ := outer
  obtain ⟨levels, scopes, sound⟩ := sound
  cases fuel with
  | zero => cases enters
  | succ fuel => exact sound.enter (allDeliver run fuel) enters

end Eval.Run
end LoxLang
