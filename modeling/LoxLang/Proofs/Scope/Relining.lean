import LoxLang.Proofs.Ends
import LoxLang.Proofs.Grammar.Relabeling.Tree
import LoxLang.Scope

/-! Scopes do not depend on lines. The walk over a program whose tokens are on other lines, and whose
references have the same identities, records the same depths and finds the same faults in the same
order, at the tokens of that program. -/
namespace LoxLang.Relabeling
open Scope

variable (σ : Relabeling)

def scopeFault (e : ScopeError) : ScopeError := ⟨e.cause, σ.token e.found⟩

def scopes (s : State) : State := { s with reported := s.reported.map σ.scopeFault }

def walked : EStateM.Result ScopeError State Unit → EStateM.Result ScopeError State Unit
  | .ok _ after => .ok () (σ.scopes after)
  | .error e after => .error (σ.scopeFault e) (σ.scopes after)

/-- The second part of the walk finds what the first one finds, at relabeled tokens. -/
def Relines (walk walk' : Walk Unit) : Prop := ∀ s, walk' (σ.scopes s) = σ.walked (walk s)

variable {σ} {walk walk' rest rest' : Walk Unit}

namespace Relines

theorem pure : σ.Relines (Pure.pure ()) (Pure.pure ()) := fun _ => rfl

theorem bind (first : σ.Relines walk walk') (second : σ.Relines rest rest') :
    σ.Relines (walk >>= fun _ => rest) (walk' >>= fun _ => rest') := by
  intro s
  have found := first s
  cases ended : walk s with
  | ok a after =>
    rw [ended] at found
    rw [bind_of_ok found, bind_of_ok ended]
    exact second after
  | error e after =>
    rw [ended] at found
    rw [bind_of_error found, bind_of_error ended]
    rfl

theorem report (cause : ScopeError.Cause) (found : Token) :
    σ.Relines (Scope.report cause found) (Scope.report cause (σ.token found)) := by
  intro s
  simp only [Scope.report, walked, scopes, List.map_append]
  rfl

/-- A fault that is reported before the rest of the walk. -/
theorem reportIf {c : Prop} [Decidable c] (cause : ScopeError.Cause) (found : Token)
    (second : σ.Relines rest rest') :
    σ.Relines (if c then do Scope.report cause found; rest else rest)
      (if c then do Scope.report cause (σ.token found); rest' else rest') := by
  split
  · exact (report cause found).bind second
  · exact second

theorem mark (name : String) (ready : Bool) :
    σ.Relines (Scope.mark name ready) (Scope.mark name ready) := by
  rintro ⟨tables, depths, reported⟩
  cases tables <;> rfl

theorem declare (name : Token) : σ.Relines (Scope.declare name) (Scope.declare (σ.token name)) := by
  rintro ⟨tables, depths, reported⟩
  cases tables with
  | nil => rfl
  | cons scope outer =>
    have same : (σ.token name).lexeme = name.lexeme := rfl
    simp only [Scope.declare, scopes, same]
    split <;> rfl

theorem introduce (name : Token) :
    σ.Relines (Scope.introduce name) (Scope.introduce (σ.token name)) :=
  (declare name).bind (mark name.lexeme true)

theorem introduceAll (names : List Token) :
    σ.Relines (Scope.introduceAll names) (Scope.introduceAll (names.map σ.token)) := by
  induction names with
  | nil => exact .pure
  | cons name rest ih => exact (introduce name).bind ih

theorem inside (inner : σ.Relines walk walk') : σ.Relines (Scope.inside walk) (Scope.inside walk') := by
  have opening : σ.Relines (modify fun s : State => { s with scopes := [] :: s.scopes })
      (modify fun s : State => { s with scopes := [] :: s.scopes }) := fun _ => rfl
  have closing : σ.Relines (modify fun s : State => { s with scopes := s.scopes.tail })
      (modify fun s : State => { s with scopes := s.scopes.tail }) := fun _ => rfl
  exact opening.bind (inner.bind closing)

theorem insideClass (clause : Option Reference) (inner : σ.Relines walk walk') :
    σ.Relines (Scope.insideClass clause walk) (Scope.insideClass (clause.map σ.reference) walk') := by
  have withThis := inside ((mark "this" true).bind inner)
  cases clause with
  | none => exact withThis
  | some r => exact inside ((mark "super" true).bind withThis)

end Relines

/-! The walk. References keep their identities, so the same depths are recorded. -/

theorem reference_kept (kept : σ.ids = 0) (r : Reference) : (σ.reference r).id = r.id := by
  rw [reference, kept, Nat.add_zero]

theorem locate_relines (kept : σ.ids = 0) (r : Reference) :
    σ.Relines (locate r) (locate (σ.reference r)) := by
  intro s
  have same : (σ.reference r).name.lexeme = r.name.lexeme := rfl
  simp only [locate, scopes, same, reference_kept kept]
  split <;> rfl

theorem readVariable_relines (kept : σ.ids = 0) (r : Reference) :
    σ.Relines (readVariable r) (readVariable (σ.reference r)) := by
  intro s
  have read (s : State) (r : Reference) : readVariable r s =
      (if s.scopes.head?.bind (·.get? r.name.lexeme) = some false then
        throw ⟨.readInOwnInitializer, r.name⟩ else locate r : Walk Unit) s := by
    change (if _ then _ else _ : Walk Unit) s = _
    split <;> rfl
  have same : (σ.scopes s).scopes.head?.bind (·.get? (σ.reference r).name.lexeme) =
    s.scopes.head?.bind (·.get? r.name.lexeme) := rfl
  rw [read, read, same]
  split
  · rfl
  · exact locate_relines kept r s

theorem readThis_relines (kept : σ.ids = 0) (context : Context) (r : Reference) :
    σ.Relines (readThis context r) (readThis context (σ.reference r)) := by
  unfold readThis
  split
  · exact .report _ r.name
  · exact locate_relines kept r

theorem readSuper_relines (kept : σ.ids = 0) (context : Context) (r : Reference) :
    σ.Relines (readSuper context r) (readSuper context (σ.reference r)) := by
  unfold readSuper
  split
  · exact .report _ r.name
  · exact .report _ r.name
  · exact locate_relines kept r

mutual

theorem walkExpr_relines (kept : σ.ids = 0) (context : Context) : ∀ e : Expr,
    σ.Relines (walkExpr context e) (walkExpr context (σ.expr e))
  | .literal _ => .pure
  | .grouping inner => walkExpr_relines kept context inner
  | .unary _ right => walkExpr_relines kept context right
  | .binary left _ right | .logical left _ right =>
    (walkExpr_relines kept context left).bind (walkExpr_relines kept context right)
  | .conditional condition thenBranch elseBranch =>
    (walkExpr_relines kept context condition).bind
      ((walkExpr_relines kept context thenBranch).bind (walkExpr_relines kept context elseBranch))
  | .variable r => readVariable_relines kept r
  | .assign r value => (walkExpr_relines kept context value).bind (locate_relines kept r)
  | .call callee _ arguments =>
    (walkExpr_relines kept context callee).bind (walkExprs_relines kept context arguments)
  | .get object _ => walkExpr_relines kept context object
  | .set object _ value =>
    (walkExpr_relines kept context value).bind (walkExpr_relines kept context object)
  | .this r => readThis_relines kept context r
  | .super r _ => readSuper_relines kept context r

theorem walkExprs_relines (kept : σ.ids = 0) (context : Context) : ∀ es : List Expr,
    σ.Relines (walkExprs context es) (walkExprs context (σ.exprs es))
  | [] => .pure
  | e :: rest => (walkExpr_relines kept context e).bind (walkExprs_relines kept context rest)

end

theorem walkOptional_relines (kept : σ.ids = 0) (context : Context) (e : Option Expr) :
    σ.Relines (walkOptional context e) (walkOptional context (e.map σ.expr)) := by
  cases e with
  | none => exact .pure
  | some e => exact walkExpr_relines kept context e

theorem checkReturn_relines (context : Context) (keyword : Token) (value : Option Expr) :
    σ.Relines (checkReturn context keyword value)
      (checkReturn context (σ.token keyword) (value.map σ.expr)) := by
  have valued : σ.Relines
      (if context.body = some .initializer && value.isSome then
        report .valueFromInitializer keyword else pure ())
      (if context.body = some .initializer && value.isSome then
        report .valueFromInitializer (σ.token keyword) else pure ()) := .reportIf _ keyword .pure
  have given : (value.map σ.expr).isSome = value.isSome := Option.isSome_map
  simp only [checkReturn, given]
  exact .reportIf _ keyword valued

theorem walkSuperclass_relines (kept : σ.ids = 0) (name : Token) (clause : Option Reference) :
    σ.Relines (walkSuperclass name clause)
      (walkSuperclass (σ.token name) (clause.map σ.reference)) := by
  cases clause with
  | none => exact .pure
  | some r => exact .reportIf _ r.name (readVariable_relines kept r)

mutual

theorem walkStmt_relines (kept : σ.ids = 0) : ∀ (context : Context) (s : Stmt),
    σ.Relines (walkStmt context s) (walkStmt context (σ.stmt s))
  | context, .expression e | context, .print e => walkExpr_relines kept context e
  | context, .var name initializer =>
    (Relines.declare name).bind ((walkOptional_relines kept context initializer).bind
      (.mark name.lexeme true))
  | context, .block body => .inside (walkStmts_relines kept context body)
  | context, .if_ condition thenBranch none =>
    (walkExpr_relines kept context condition).bind (walkStmt_relines kept context thenBranch)
  | context, .if_ condition thenBranch (some elseBranch) =>
    (walkExpr_relines kept context condition).bind
      ((walkStmt_relines kept context thenBranch).bind (walkStmt_relines kept context elseBranch))
  | context, .while_ condition body =>
    (walkExpr_relines kept context condition).bind (walkStmt_relines kept context body)
  | context, .function ⟨name, parameters, body⟩ =>
    (Relines.introduce name).bind
      (walkDeclaration_relines kept context .function ⟨name, parameters, body⟩)
  | context, .return_ keyword value =>
    (checkReturn_relines context keyword value).bind (walkOptional_relines kept context value)
  | context, .class_ name clause methods => by
    have same : classContext context (clause.map σ.reference) = classContext context clause := by
      cases clause <;> rfl
    simp only [stmt, walkStmt, same]
    exact (Relines.introduce name).bind ((walkSuperclass_relines kept name clause).bind
      (.insideClass clause (walkMethods_relines kept _ methods)))

theorem walkStmts_relines (kept : σ.ids = 0) : ∀ (context : Context) (body : List Stmt),
    σ.Relines (walkStmts context body) (walkStmts context (σ.stmts body))
  | _, [] => .pure
  | context, s :: rest => (walkStmt_relines kept context s).bind (walkStmts_relines kept context rest)

theorem walkDeclaration_relines (kept : σ.ids = 0) : ∀ (context : Context) (body : Body)
    (d : Declaration),
    σ.Relines (walkDeclaration context body d) (walkDeclaration context body (σ.declaration d))
  | _, _, ⟨_, parameters, statements⟩ =>
    .inside ((Relines.introduceAll parameters).bind (walkStmts_relines kept _ statements))

theorem walkMethods_relines (kept : σ.ids = 0) : ∀ (context : Context) (ds : List Declaration),
    σ.Relines (walkMethods context ds) (walkMethods context (σ.declarations ds))
  | _, [] => .pure
  | context, ⟨name, parameters, body⟩ :: rest =>
    (walkDeclaration_relines kept context (methodBody ⟨name, parameters, body⟩)
      ⟨name, parameters, body⟩).bind (walkMethods_relines kept context rest)

end

/-- The program on other lines has the same depths and the same faults, on those lines. -/
theorem resolve_relines (kept : σ.ids = 0) (program : List Stmt) :
    resolve (σ.stmts program) =
      ((resolve program).1, (resolve program).2.map σ.scopeFault) := by
  have walked := walkStmts_relines kept .top program .start
  have start : σ.scopes .start = .start := rfl
  rw [start] at walked
  unfold resolve
  rw [walked]
  cases walkStmts .top program .start with
  | ok _ after => rfl
  | error e after => simp [Relabeling.walked, scopes]

end LoxLang.Relabeling
