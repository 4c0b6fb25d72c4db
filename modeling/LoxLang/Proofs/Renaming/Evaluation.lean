import LoxLang.Proofs.Renaming.Declaring

/-! Evaluation on two machines that are alike up to a renaming. Trees that are alike are evaluated alike:
the parts of one run are matched, step by step, by the same parts of the other. The induction is on the
fuel, which is the same in both, and there is one case for each way in which two trees can be alike. -/
namespace LoxLang
namespace Comparison
open Grammar Eval Renaming

variable (ρ : Comparison) (w : Layout)

/-- Results of an operator that are alike. -/
inductive ResultAlike : Except RuntimeError Value → Except RuntimeError Value → Prop
  | ok {v v'} (value : ρ.ValueAlike w v v') : ResultAlike (.ok v) (.ok v')
  | error {cause line line'} (lines : ρ.line line line') :
    ResultAlike (.error ⟨cause, line⟩) (.error ⟨cause, line'⟩)

/-- Parts that are alike and have this much fuel match. -/
structure AllMatch (fuel : Nat) : Prop where
  evaluate : ∀ {w marks e e'}, ρ.Alike marks (.expr e) (.expr e') →
    ρ.Matches w marks ρ.ValueAlike (evaluate fuel e) (evaluate fuel e')
  evaluateAll : ∀ {w marks es es'}, ρ.Alike marks (.exprs es) (.exprs es') →
    ρ.Matches w marks (fun w => List.Forall₂ (ρ.ValueAlike w)) (evaluateAll fuel es)
      (evaluateAll fuel es')
  call : ∀ {w marks f f' line line' values values'}, ρ.ValueAlike w f f' → ρ.line line line' →
    List.Forall₂ (ρ.ValueAlike w) values values' →
    ρ.Matches w marks ρ.ValueAlike (call fuel f line values) (call fuel f' line' values')
  invoke : ∀ {w marks f f' values values'}, ρ.CallableAlike w f f' →
    List.Forall₂ (ρ.ValueAlike w) values values' →
    ρ.Matches w marks ρ.ValueAlike (invoke fuel f values) (invoke fuel f' values')
  callFunction : ∀ {w marks f f' values values'}, ρ.FunctionAlike w [] f f' →
    List.Forall₂ (ρ.ValueAlike w) values values' →
    ρ.Matches w marks ρ.ValueAlike (callFunction fuel f values) (callFunction fuel f' values')
  execute : ∀ {w marks s s'}, ρ.Alike marks (.stmt s) (.stmt s') →
    ρ.Matches w marks ρ.CompletionAlike (execute fuel s) (execute fuel s')
  executeAll : ∀ {w marks body body'}, ρ.Alike marks (.stmts body) (.stmts body') →
    ρ.Matches w marks ρ.CompletionAlike (executeAll fuel body) (executeAll fuel body')
  loop : ∀ {w marks e e' s s'}, ρ.Alike marks (.expr e) (.expr e') →
    ρ.Alike marks (.stmt s) (.stmt s') →
    ρ.Matches w marks ρ.CompletionAlike (loop fuel e s) (loop fuel e' s')

variable {ρ w} {marks : List Bool}

section Operators

variable {operator operator' : Token} {v v' u u' : Value}

theorem ResultAlike.ofExcept {result result' : Except RuntimeError Value}
    (alike : ρ.ResultAlike w result result') :
    ρ.Matches w marks ρ.ValueAlike (Eval.ofExcept result) (Eval.ofExcept result') := by
  cases alike with
  | ok value => exact .pure value
  | error lines => exact .throw (.fault .same lines)

theorem unary_alike (same : ρ.Agrees operator operator') (value : ρ.ValueAlike w v v') :
    ρ.ResultAlike w (Operator.unary operator v) (Operator.unary operator' v') := by
  unfold Operator.unary
  rw [same.kind, same.lexeme, value.isTruthy]
  split
  · cases value with
    | number => exact .ok .number
    | _ => exact .error same.line
  · exact .ok .boolean
  · exact .error same.line

theorem add_alike (same : ρ.Agrees operator operator') (left : ρ.ValueAlike w v v')
    (right : ρ.ValueAlike w u u') :
    ρ.ResultAlike w (Operator.add operator v u) (Operator.add operator' v' u') := by
  have shown := left.display
  have shown' := right.display
  unfold Operator.add
  cases left with
  | number =>
    cases right with
    | number => exact .ok .number
    | string => exact .ok .string
    | _ => simp only [shown', same.lexeme]; exact .error same.line
  | string =>
    cases right with
    | number => exact .ok .string
    | string => exact .ok .string
    | _ => simp only [shown', same.lexeme]; exact .error same.line
  | _ => simp only [shown, shown', same.lexeme]; exact .error same.line

theorem arithmetic_alike (same : ρ.Agrees operator operator') (a b : Float) :
    ρ.ResultAlike w (Operator.arithmetic operator a b) (Operator.arithmetic operator' a b) := by
  unfold Operator.arithmetic
  rw [same.kind, same.lexeme]
  split
  · exact .ok .number
  · exact .ok .number
  · exact .ok .number
  · split
    · exact .error same.line
    · exact .ok .number
  · split
    · exact .error same.line
    · exact .ok .number
  · exact .ok .boolean
  · exact .ok .boolean
  · exact .ok .boolean
  · exact .ok .boolean
  · exact .error same.line

theorem binary_alike (same : ρ.Agrees operator operator') (left : ρ.ValueAlike w v v')
    (right : ρ.ValueAlike w u u') :
    ρ.ResultAlike w (Operator.binary operator v u) (Operator.binary operator' v' u') := by
  have shown := left.display
  have shown' := right.display
  unfold Operator.binary
  rw [same.kind, left.equals right]
  split
  · exact add_alike same left right
  · exact .ok .boolean
  · exact .ok .boolean
  · cases left with
    | number =>
      cases right with
      | number => exact arithmetic_alike same _ _
      | _ => simp only [shown', same.lexeme]; exact .error same.line
    | _ => simp only [shown, shown', same.lexeme]; exact .error same.line

theorem isDecidedBy_alike (same : ρ.Agrees operator operator') (value : ρ.ValueAlike w v v') :
    Operator.isDecidedBy operator' v' = Operator.isDecidedBy operator v := by
  unfold Operator.isDecidedBy
  rw [same.kind, value.isTruthy]

end Operators

theorem values_grown {w' : Layout} (grown : w <+: w') {values values' : List Value}
    (alike : List.Forall₂ (ρ.ValueAlike w) values values') :
    List.Forall₂ (ρ.ValueAlike w') values values' := alike.imp fun _ _ value => value.grown grown

/-- What is called alike passes its checks in both runs or in neither. -/
theorem checkCall_matches {f f' : Value} {line line' : Nat} {values values' : List Value}
    (callee : ρ.ValueAlike w f f') (lines : ρ.line line line')
    (arguments : List.Forall₂ (ρ.ValueAlike w) values values') :
    ρ.Matches w marks ρ.CallableAlike (Eval.checkCall f line values) (Eval.checkCall f' line' values') := by
  have callables := callee.callable?
  unfold Eval.checkCall
  generalize f.callable? = callable at *
  generalize f'.callable? = callable' at *
  cases callables with
  | none => exact .fail .same lines
  | some functions =>
    dsimp only
    rw [functions.arity, ← arguments.length_eq]
    split
    · exact .fail .same lines
    · apply Matches.inspect
      intro m m' machines
      rw [machines.activeCalls]
      split
      · exact .fail .same lines
      · exact .pure functions

/-- Parameters are bound alike in a scope with their mark. -/
theorem parameters_alike {marked : Bool} {ps ps' : List Token}
    (parameters : List.Forall₂ (ρ.Becomes marked) ps ps') {values values' : List Value}
    (arguments : List.Forall₂ (ρ.ValueAlike w) values values') :
    ρ.BindingsAlike w marked (.ofList ((ps.map Token.lexeme).zip values))
      (.ofList ((ps'.map Token.lexeme).zip values')) := by
  have pairs : List.Forall₂
      (fun p p' => p.1 ≠ ρ.new ∧ p'.1 = ρ.name marked p.1 ∧ ρ.ValueAlike w p.2 p'.2)
      ((ps.map Token.lexeme).zip values) ((ps'.map Token.lexeme).zip values') := by
    induction parameters generalizing values values' with
    | nil => exact .nil
    | cons becomes _ ih =>
      cases arguments with
      | nil => exact .nil
      | cons value others => exact .cons ⟨becomes.fresh, becomes.lexeme, value⟩ (ih others)
  intro name fresh
  exact ofList_related (ρ.name marked) (· ≠ ρ.new) (fun _ _ => name_inj) pairs fresh

section Steps

variable {fuel : Nat} (unreserved : ρ.Unreserved) (all : ρ.AllMatch fuel)
include unreserved all

theorem evaluate_matches {e e' : Expr} (alike : ρ.Alike marks (.expr e) (.expr e')) :
    ρ.Matches w marks ρ.ValueAlike (Eval.evaluate (fuel + 1) e) (Eval.evaluate (fuel + 1) e') := by
  rw [evaluate.eq_def, evaluate.eq_def (fuel + 1) e']
  cases alike with
  | literal => exact .pure (.literal _)
  | grouping inner => exact all.evaluate inner
  | unary same right =>
    apply (all.evaluate right).bind
    exact fun _ v v' _ value => (unary_alike same value).ofExcept
  | binary same left right =>
    apply (all.evaluate left).bind
    intro w₁ a a' _ first
    apply (all.evaluate right).bind
    exact fun w₂ b b' grown second => (binary_alike same (first.grown grown) second).ofExcept
  | logical same left right =>
    apply (all.evaluate left).bind
    intro w₁ a a' _ first
    -- the left sides decide alike, so both runs take the same branch
    rw [isDecidedBy_alike same first]
    split
    · exact .pure first
    · exact all.evaluate right
  | conditional condition thenBranch elseBranch =>
    apply (all.evaluate condition).bind
    intro w₁ test test' _ tests
    rw [tests.isTruthy]
    split
    · exact all.evaluate thenBranch
    · exact all.evaluate elseBranch
  | «variable» refers => exact lookUp_matches refers
  | assign refers value =>
    apply (all.evaluate value).bind
    intro w₁ v v' _ values
    apply (assign_matches refers values).bind
    exact fun w₂ _ _ grown _ => .pure (values.grown grown)
  | call lines callee arguments =>
    apply (all.evaluate callee).bind
    intro w₁ f f' _ functions
    apply (all.evaluateAll arguments).bind
    exact fun w₂ values values' grown given => all.call (functions.grown grown) lines given
  | get same object =>
    apply (all.evaluate object).bind
    intro w₁ v v' _ objects
    cases objects with
    | instance_ id classes => exact property_matches id classes same
    | _ => exact .fail .same same.line
  | set same object value =>
    apply (all.evaluate object).bind
    intro w₁ v v' _ objects
    cases objects with
    | instance_ id classes =>
      apply (all.evaluate value).bind
      intro w₂ u u' _ values
      apply (setProperty_matches id same values).bind
      exact fun w₃ _ _ grown _ => .pure (values.grown grown)
    | _ => exact .fail .same same.line
  | this refers => exact lookUp_matches refers
  | super refers stays same => exact superMethod_matches unreserved refers stays same

omit unreserved in
theorem evaluateAll_matches {es es' : List Expr} (alike : ρ.Alike marks (.exprs es) (.exprs es')) :
    ρ.Matches w marks (fun w => List.Forall₂ (ρ.ValueAlike w)) (Eval.evaluateAll (fuel + 1) es)
      (Eval.evaluateAll (fuel + 1) es') := by
  cases alike with
  | noExprs => exact .pure .nil
  | moreExprs first rest =>
    apply (all.evaluate first).bind
    intro w₁ v v' _ value
    apply (all.evaluateAll rest).bind
    exact fun w₂ values values' grown later => .pure (.cons (value.grown grown) later)

omit unreserved in
theorem call_matches {f f' : Value} {line line' : Nat} {values values' : List Value}
    (callee : ρ.ValueAlike w f f') (lines : ρ.line line line')
    (arguments : List.Forall₂ (ρ.ValueAlike w) values values') :
    ρ.Matches w marks ρ.ValueAlike (Eval.call (fuel + 1) f line values)
      (Eval.call (fuel + 1) f' line' values') := by
  apply (checkCall_matches callee lines arguments).bind
  intro w₁ g g' grown functions
  exact .inCall (all.invoke functions (values_grown grown arguments))

omit unreserved in
theorem invoke_matches {f f' : Callable} {values values' : List Value}
    (callee : ρ.CallableAlike w f f') (arguments : List.Forall₂ (ρ.ValueAlike w) values values') :
    ρ.Matches w marks ρ.ValueAlike (Eval.invoke (fuel + 1) f values)
      (Eval.invoke (fuel + 1) f' values') := by
  cases callee with
  | @native f =>
    cases f
    exact .readClock
  | function functions => exact all.callFunction functions arguments
  | @class_ c c' classes =>
    have made : ρ.Matches w marks (fun w i i' => i'.id = i.id ∧ ρ.ClassAlike w i.cls i'.cls)
        (onStore fun s => s.newInstance c) (onStore fun s => s.newInstance c') := by
      apply Matches.onStore_within
      intro s s' stores
      exact ⟨stores.newInstance c c', congrArg InstanceId.mk stores.instances, classes⟩
    apply made.bind
    rintro w₁ i i' grown ⟨id, own⟩
    have method := (classes.grown grown).methods initializerName
    generalize c.findMethod? initializerName = found at *
    generalize c'.findMethod? initializerName = found' at *
    cases method with
    | none => exact .pure (.instance_ id own)
    | some methods =>
      apply (bindMethod_matches methods id own).bind
      intro w₂ bound bound' grown' functions
      apply (all.callFunction functions (values_grown (grown.trans grown') arguments)).bind
      exact fun w₃ _ _ grown'' _ => .pure (.instance_ id (own.grown (grown'.trans grown'')))

theorem callFunction_matches {f f' : Function} {values values' : List Value}
    (functions : ρ.FunctionAlike w [] f f')
    (arguments : List.Forall₂ (ρ.ValueAlike w) values values') :
    ρ.Matches w marks ρ.ValueAlike (Eval.callFunction (fuel + 1) f values)
      (Eval.callFunction (fuel + 1) f' values') := by
  obtain ⟨outer, chain, own, routine⟩ := functions.routine
  obtain ⟨id, ⟨name, ps, body⟩, closure, isInitializer⟩ := f
  obtain ⟨id', ⟨name', ps', body'⟩, closure', isInitializer'⟩ := f'
  obtain ⟨_, rfl, _⟩ := functions
  cases routine with
  | @routine _ marked _ _ _ _ _ _ stays same parameters statements =>
  apply (Matches.newFrame chain stays (parameters_alike parameters arguments)).bind
  intro w₁ frame frame' grown inside
  apply (Matches.inFrame inside (all.executeAll statements)).bind
  intro w₂ completion completion' grown' completions
  dsimp only
  split
  · next initializing =>
    apply Matches.inspect
    intro m m' machines
    have stays : ρ.Stays (outer[0]?.getD false) := by
      rw [← List.head?_eq_getElem?, ← List.headD_eq_head?_getD]
      exact own initializing
    have receiver :=
      machines.store.getAt?_word unreserved (chain.grown (grown.trans grown')) .this_ 0 stays
    rw [outward_zero] at receiver
    exact .ofOption receiver .same same.line
  · cases completions with
    | normal => exact .pure .nil
    | returned value => exact .pure value

omit unreserved in
theorem execute_matches {s s' : Stmt} (alike : ρ.Alike marks (.stmt s) (.stmt s')) :
    ρ.Matches w marks ρ.CompletionAlike (Eval.execute (fuel + 1) s)
      (Eval.execute (fuel + 1) s') := by
  rw [execute.eq_def, execute.eq_def (fuel + 1) s']
  have normal {w : Layout} : ρ.Matches w marks ρ.CompletionAlike
      (Pure.pure .normal : Eval Completion) (Pure.pure .normal) := .pure .normal
  cases alike with
  | expression value =>
    apply (all.evaluate value).bind
    exact fun _ _ _ _ _ => normal
  | print value =>
    apply (all.evaluate value).bind
    intro w₁ v v' _ values
    apply (print_matches values).bind
    exact fun _ _ _ _ _ => normal
  | var becomes value =>
    cases value with
    | noClause =>
      apply (define_matches becomes .nil).bind
      exact fun _ _ _ _ _ => normal
    | someClause value =>
      apply (all.evaluate value).bind
      intro w₁ v v' _ values
      apply (define_matches becomes values).bind
      exact fun _ _ _ _ _ => normal
  | @block _ marked _ _ stays statements =>
    apply Matches.currentFrame.bind
    intro w₁ outer outer' _ chain
    have empty : ρ.BindingsAlike w₁ marked [] [] := fun _ _ => .none
    apply (Matches.newFrame chain stays empty).bind
    intro w₂ frame frame' _ inside
    exact .inFrame inside (all.executeAll statements)
  | if_ condition thenBranch _ elseBranch =>
    apply (all.evaluate condition).bind
    intro w₁ test test' _ tests
    rw [tests.isTruthy]
    split
    · exact all.execute thenBranch
    · cases elseBranch with
      | noBranch => exact normal
      | someBranch taken _ => exact all.execute taken
  | while_ condition body _ => exact all.loop condition body
  | function _ becomes routine =>
    apply (defineFunction_matches becomes routine).bind
    exact fun _ _ _ _ _ => normal
  | return_ _ value =>
    cases value with
    | noClause => exact .pure (.returned .nil)
    | someClause value =>
      apply (all.evaluate value).bind
      exact fun _ _ _ _ values => .pure (.returned values)
  | class_ same becomes parent methods =>
    apply (defineClass_matches same becomes parent methods).bind
    exact fun _ _ _ _ _ => normal

omit unreserved in
theorem executeAll_matches {body body' : List Stmt} (alike : ρ.Alike marks (.stmts body) (.stmts body')) :
    ρ.Matches w marks ρ.CompletionAlike (Eval.executeAll (fuel + 1) body)
      (Eval.executeAll (fuel + 1) body') := by
  cases alike with
  | noStmts => exact .pure .normal
  | moreStmts first rest =>
    apply (all.execute first).bind
    intro w₁ completion completion' _ completions
    cases completions with
    | normal => exact all.executeAll rest
    | returned value => exact .pure (.returned value)

omit unreserved in
theorem loop_matches {e e' : Expr} {s s' : Stmt} (condition : ρ.Alike marks (.expr e) (.expr e'))
    (body : ρ.Alike marks (.stmt s) (.stmt s')) :
    ρ.Matches w marks ρ.CompletionAlike (Eval.loop (fuel + 1) e s) (Eval.loop (fuel + 1) e' s') := by
  apply (all.evaluate condition).bind
  intro w₁ test test' _ tests
  rw [tests.isTruthy]
  split
  · apply (all.execute body).bind
    intro w₂ completion completion' _ completions
    cases completions with
    | normal => exact all.loop condition body
    | returned value => exact .pure (.returned value)
  · exact .pure .normal

end Steps

/-- Whatever the fuel, parts that are alike match. -/
theorem allMatch (unreserved : ρ.Unreserved) (fuel : Nat) : ρ.AllMatch fuel := by
  induction fuel with
  | zero => constructor <;> intros <;> exact .exhausted
  | succ fuel ih =>
    exact ⟨evaluate_matches unreserved ih, evaluateAll_matches ih, call_matches ih, invoke_matches ih,
      callFunction_matches unreserved ih, execute_matches ih, executeAll_matches ih, loop_matches ih⟩

/-- Programs that are alike are interpreted alike. -/
theorem interpret_matches (unreserved : ρ.Unreserved) (fuel : Nat) {program program' : List Stmt}
    (alike : ρ.Alike marks (.stmts program) (.stmts program')) :
    ρ.Matches w marks Anything (interpret fuel program) (interpret fuel program') := by
  induction program generalizing program' w with
  | nil =>
    cases alike
    exact .pure trivial
  | cons s rest ih =>
    cases alike with
    | moreStmts first others =>
      apply ((allMatch unreserved fuel).execute first).bind
      exact fun _ _ _ _ _ => ih others

end Comparison
end LoxLang
