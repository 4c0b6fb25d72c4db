import LoxLang.Proofs.Renaming.Alike
import LoxLang.Proofs.Scope.Relining

/-! A program and the same program on other lines are alike: nothing is renamed, the references have
their identities and their depths, and only the lines of tokens differ. -/
namespace LoxLang
namespace Comparison
open Grammar Scope Renaming

/-- The comparison renames nothing, and it relates every line to the one that the relabeling makes of
it. Identities are kept, and so are all scopes. -/
structure Relining (ρ : Comparison) (σ : Relabeling) : Prop where
  whole : ρ.omits = false
  unchanged : ρ.old = ρ.new
  lines : ∀ line, ρ.line line (σ.line line)
  kept : σ.ids = 0

variable {ρ : Comparison} {σ : Relabeling} {P : Token → Prop} {R Q : Reference → Prop}
  {marks : List Bool} {marked : Bool}

namespace Relining

theorem agrees (relining : ρ.Relining σ) (t : Token) : ρ.Agrees t (σ.token t) :=
  ⟨rfl, rfl, relining.lines t.line⟩

theorem becomes (relining : ρ.Relining σ) {t : Token} (fresh : t.lexeme ≠ ρ.new) :
    ρ.Becomes marked t (σ.token t) :=
  ⟨rfl, (name_of_same relining.unchanged marked t.lexeme).symm, relining.lines t.line, fresh, stays_of_whole relining.whole⟩

theorem refers (relining : ρ.Relining σ) {r : Reference} (fresh : r.name.lexeme ≠ ρ.new)
    (depth : ρ.depths'[r.id]? = ρ.depths[r.id]?) : ρ.Refers marks r (σ.reference r) :=
  refers_of_whole relining.whole (Relabeling.reference_kept relining.kept r) depth (relining.becomes fresh)

theorem named (relining : ρ.Relining σ) (holds : ρ.Named P R Q) {r : Reference} (held : R r) :
    ρ.Refers marks r (σ.reference r) :=
  relining.refers (holds.references r held).1 (holds.references r held).2

theorem word (relining : ρ.Relining σ) (holds : ρ.Named P R Q) {r : Reference} (held : Q r) :
    ρ.Refers marks r (σ.reference r) :=
  relining.refers (holds.words r held).1 (holds.words r held).2.2

mutual

theorem expr (relining : ρ.Relining σ) (holds : ρ.Named P R Q) : ∀ e, exprNames R Q e →
    ρ.Alike marks (.expr e) (.expr (σ.expr e))
  | .literal _, _ => .literal
  | .grouping inner, held => .grouping (relining.expr holds inner held)
  | .unary operator right, held =>
    .unary (relining.agrees operator) (relining.expr holds right held)
  | .binary left operator right, held =>
    .binary (relining.agrees operator) (relining.expr holds left held.1)
      (relining.expr holds right held.2)
  | .logical left operator right, held =>
    .logical (relining.agrees operator) (relining.expr holds left held.1)
      (relining.expr holds right held.2)
  | .conditional condition thenBranch elseBranch, held =>
    .conditional (relining.expr holds condition held.1) (relining.expr holds thenBranch held.2.1)
      (relining.expr holds elseBranch held.2.2)
  | .variable _, held => .variable (relining.named holds held)
  | .assign _ value, held =>
    .assign (relining.named holds held.1) (relining.expr holds value held.2)
  | .call callee paren arguments, held =>
    .call (relining.lines paren.line) (relining.expr holds callee held.1)
      (relining.exprs holds arguments held.2)
  | .get object name, held => .get (relining.agrees name) (relining.expr holds object held)
  | .set object name value, held =>
    .set (relining.agrees name) (relining.expr holds object held.1)
      (relining.expr holds value held.2)
  | .this _, held => .this (relining.word holds held)
  | .super _ method, held =>
    .super (relining.word holds held) (fun _ _ => stays_of_whole relining.whole) (relining.agrees method)

theorem exprs (relining : ρ.Relining σ) (holds : ρ.Named P R Q) : ∀ es, exprsNames R Q es →
    ρ.Alike marks (.exprs es) (.exprs (σ.exprs es))
  | [], _ => .noExprs
  | e :: rest, held =>
    .moreExprs (relining.expr holds e held.1) (relining.exprs holds rest held.2)

end

theorem clause (relining : ρ.Relining σ) (holds : ρ.Named P R Q) (e : Option Expr)
    (held : clauseNames R Q e) : ρ.Alike marks (.clause e) (.clause (e.map σ.expr)) := by
  cases e with
  | none => exact .noClause
  | some e => exact .someClause (relining.expr holds e held)

theorem superclass (relining : ρ.Relining σ) (holds : ρ.Named P R Q) (clause : Option Reference)
    (held : ∀ r ∈ clause, R r) :
    Option.Rel (ρ.Refers marks) clause (clause.map σ.reference) := by
  cases clause with
  | none => exact .none
  | some r => exact .some (relining.named holds (held r rfl))

theorem parameters (relining : ρ.Relining σ) (holds : ρ.Named P R Q) {ps : List Token}
    (held : ∀ p ∈ ps, P p) : List.Forall₂ (ρ.Becomes marked) ps (ps.map σ.token) := by
  induction ps with
  | nil => exact .nil
  | cons p rest ih =>
    exact .cons (relining.becomes (holds.fresh p (held p List.mem_cons_self)))
      (ih fun q member => held q (List.mem_cons_of_mem _ member))

mutual

theorem stmt (relining : ρ.Relining σ) (holds : ρ.Named P R Q) : ∀ marks s, stmtNames P R Q s →
    ρ.Alike marks (.stmt s) (.stmt (σ.stmt s))
  | _, .expression e, held => .expression (relining.expr holds e held)
  | _, .print e, held => .print (relining.expr holds e held)
  | _, .var _ initializer, held =>
    .var (relining.becomes (holds.fresh _ held.1)) (relining.clause holds initializer held.2)
  | marks, .block body, held => .block stays_false (relining.stmts holds (false :: marks) body held)
  | marks, .if_ condition thenBranch none, held =>
    .if_ (relining.expr holds condition held.1) (relining.stmt holds marks thenBranch held.2.1)
      held.2.2 .noBranch
  | marks, .if_ condition thenBranch (some elseBranch), held =>
    .if_ (relining.expr holds condition held.1) (relining.stmt holds marks thenBranch held.2.1.1)
      held.2.1.2 (.someBranch (relining.stmt holds marks elseBranch held.2.2.1) held.2.2.2)
  | marks, .while_ condition body, held =>
    .while_ (relining.expr holds condition held.1) (relining.stmt holds marks body held.2.1)
      held.2.2
  | marks, .function ⟨name, parameters, body⟩, held =>
    .function (relining.agrees name) (relining.becomes (holds.fresh name held.1))
      (relining.declaration holds marks ⟨name, parameters, body⟩ held)
  | _, .return_ keyword value, held =>
    .return_ (relining.agrees keyword) (relining.clause holds value held)
  | marks, .class_ name clause methods, held =>
    .class_ (relining.agrees name) (relining.becomes (holds.fresh name held.1))
      (relining.superclass holds clause held.2.1)
      (relining.declarations holds (insideClass clause marks) methods held.2.2)

theorem stmts (relining : ρ.Relining σ) (holds : ρ.Named P R Q) : ∀ marks body,
    stmtsNames P R Q body → ρ.Alike marks (.stmts body) (.stmts (σ.stmts body))
  | _, [], _ => .noStmts
  | marks, s :: rest, held =>
    .moreStmts (relining.stmt holds marks s held.1) (relining.stmts holds marks rest held.2)

theorem declaration (relining : ρ.Relining σ) (holds : ρ.Named P R Q) :
    ∀ marks (d : Declaration), declarationNames P R Q d →
    ρ.Alike marks (.routine d) (.routine (σ.declaration d))
  | marks, ⟨name, _, body⟩, held =>
    .routine stays_false (relining.agrees name) (relining.parameters holds held.2.1)
      (relining.stmts holds (false :: marks) body held.2.2)

theorem declarations (relining : ρ.Relining σ) (holds : ρ.Named P R Q) : ∀ marks ds,
    declarationsNames P R Q ds → ρ.Alike marks (.routines ds) (.routines (σ.declarations ds))
  | _, [], _ => .noRoutines
  | marks, d :: rest, held =>
    .moreRoutines (relining.declaration holds marks d held.1)
      (relining.declarations holds marks rest held.2)

end

end Relining
end Comparison
end LoxLang
