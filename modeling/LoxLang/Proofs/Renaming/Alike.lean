import Mathlib.Data.List.Forall2
import Mathlib.Data.List.Pairwise
import LoxLang.Proofs.Grammar.Names
import LoxLang.Proofs.Renaming.Program
import LoxLang.Proofs.Scope.Apart

/-! Trees that are alike up to a renaming. In each scope the variable may be renamed or not. A program
and the program with one variable renamed are alike, as are the declarations of the functions that a
run of each of them makes at the same moment. Instead of being renamed in, the marked scopes may be
missing around the second tree; then no name of the first one belongs to them. -/
namespace LoxLang

/-- Two programs to be compared: the names and the depths of the first, and the renaming that leads to
the second; the depths of the second; how the lines of its tokens are related to those of the first; and
whether it has no marked scopes. -/
structure Comparison extends Renaming where
  depths' : Depths
  line : Nat → Nat → Prop
  omits : Bool

namespace Comparison
open Grammar Scope Renaming

variable (ρ : Comparison)

/-- A scope with this mark is there in both programs. -/
def Stays (marked : Bool) : Prop := ρ.omits = true → marked = false

/-- How far out a scope is in the second program that is this far out in the first one. -/
def outward : List Bool → Nat → Nat
  | _, 0 => 0
  | [], d + 1 => d + 1
  | marked :: marks, d + 1 => if ρ.omits && marked then outward marks d else outward marks d + 1

/-- The tokens differ in their lines at most. -/
structure Agrees (t t' : Token) : Prop where
  kind : t'.kind = t.kind
  lexeme : t'.lexeme = t.lexeme
  line : ρ.line t.line t'.line

/-- A name in a scope, and what it becomes there. The new name is not in the first program. -/
structure Becomes (marked : Bool) (t t' : Token) : Prop where
  kind : t'.kind = t.kind
  lexeme : t'.lexeme = ρ.name marked t.lexeme
  line : ρ.line t.line t'.line
  fresh : t.lexeme ≠ ρ.new
  stays : ρ.Stays marked

/-- A reference, and what it becomes inside scopes with these marks. -/
structure Refers (marks : List Bool) (r r' : Reference) : Prop where
  id : ρ.omits = false → r'.id = r.id
  depth : ρ.depths'[r'.id]? = ρ.depths[r.id]?.map (ρ.outward marks)
  name : ρ.Becomes (ρ.leads marks r.id) r.name r'.name

/-- The scope just inside the one that the reference leads to is there in both programs. -/
def StaysInside (marks : List Bool) (r : Reference) : Prop :=
  ∀ d, ρ.depths[r.id]? = some d → ρ.Stays (marks[d - 1]?.getD false)

/-- The second tree is like the first one, inside scopes with these marks. -/
inductive Alike : List Bool → Tree → Tree → Prop
  | literal {marks l} : Alike marks (.expr (.literal l)) (.expr (.literal l))
  | grouping {marks e e'} (inner : Alike marks (.expr e) (.expr e')) :
    Alike marks (.expr (.grouping e)) (.expr (.grouping e'))
  | unary {marks operator operator' e e'} (same : ρ.Agrees operator operator')
    (right : Alike marks (.expr e) (.expr e')) :
    Alike marks (.expr (.unary operator e)) (.expr (.unary operator' e'))
  | binary {marks operator operator' l l' r r'} (same : ρ.Agrees operator operator')
    (left : Alike marks (.expr l) (.expr l')) (right : Alike marks (.expr r) (.expr r')) :
    Alike marks (.expr (.binary l operator r)) (.expr (.binary l' operator' r'))
  | logical {marks operator operator' l l' r r'} (same : ρ.Agrees operator operator')
    (left : Alike marks (.expr l) (.expr l')) (right : Alike marks (.expr r) (.expr r')) :
    Alike marks (.expr (.logical l operator r)) (.expr (.logical l' operator' r'))
  | conditional {marks e e' t t' f f'} (condition : Alike marks (.expr e) (.expr e'))
    (thenBranch : Alike marks (.expr t) (.expr t')) (elseBranch : Alike marks (.expr f) (.expr f')) :
    Alike marks (.expr (.conditional e t f)) (.expr (.conditional e' t' f'))
  | variable {marks r r'} (refers : ρ.Refers marks r r') :
    Alike marks (.expr (.variable r)) (.expr (.variable r'))
  | assign {marks r r' e e'} (refers : ρ.Refers marks r r') (value : Alike marks (.expr e) (.expr e')) :
    Alike marks (.expr (.assign r e)) (.expr (.assign r' e'))
  | call {marks f f' paren paren' es es'} (line : ρ.line paren.line paren'.line)
    (callee : Alike marks (.expr f) (.expr f'))
    (arguments : Alike marks (.exprs es) (.exprs es')) :
    Alike marks (.expr (.call f paren es)) (.expr (.call f' paren' es'))
  | get {marks o o' name name'} (same : ρ.Agrees name name') (object : Alike marks (.expr o) (.expr o')) :
    Alike marks (.expr (.get o name)) (.expr (.get o' name'))
  | set {marks o o' name name' e e'} (same : ρ.Agrees name name')
    (object : Alike marks (.expr o) (.expr o')) (value : Alike marks (.expr e) (.expr e')) :
    Alike marks (.expr (.set o name e)) (.expr (.set o' name' e'))
  | this {marks r r'} (refers : ρ.Refers marks r r') :
    Alike marks (.expr (.this r)) (.expr (.this r'))
  | super {marks r r' method method'} (refers : ρ.Refers marks r r') (stays : ρ.StaysInside marks r)
    (same : ρ.Agrees method method') :
    Alike marks (.expr (.super r method)) (.expr (.super r' method'))
  | noExprs {marks} : Alike marks (.exprs []) (.exprs [])
  | moreExprs {marks e e' es es'} (first : Alike marks (.expr e) (.expr e'))
    (rest : Alike marks (.exprs es) (.exprs es')) : Alike marks (.exprs (e :: es)) (.exprs (e' :: es'))
  | noClause {marks} : Alike marks (.clause none) (.clause none)
  | someClause {marks e e'} (value : Alike marks (.expr e) (.expr e')) :
    Alike marks (.clause (some e)) (.clause (some e'))
  | expression {marks e e'} (value : Alike marks (.expr e) (.expr e')) :
    Alike marks (.stmt (.expression e)) (.stmt (.expression e'))
  | print {marks e e'} (value : Alike marks (.expr e) (.expr e')) :
    Alike marks (.stmt (.print e)) (.stmt (.print e'))
  | var {marks name name' i i'} (becomes : ρ.Becomes (marks.headD false) name name')
    (value : Alike marks (.clause i) (.clause i')) :
    Alike marks (.stmt (.var name i)) (.stmt (.var name' i'))
  | block {marks marked body body'} (stays : ρ.Stays marked)
    (statements : Alike (marked :: marks) (.stmts body) (.stmts body')) :
    Alike marks (.stmt (.block body)) (.stmt (.block body'))
  | if_ {marks e e' s s' other other'} (condition : Alike marks (.expr e) (.expr e'))
    (thenBranch : Alike marks (.stmt s) (.stmt s')) (plain : s.declared? = none)
    (elseBranch : Alike marks (.branch other) (.branch other')) :
    Alike marks (.stmt (.if_ e s other)) (.stmt (.if_ e' s' other'))
  | while_ {marks e e' s s'} (condition : Alike marks (.expr e) (.expr e'))
    (body : Alike marks (.stmt s) (.stmt s')) (plain : s.declared? = none) :
    Alike marks (.stmt (.while_ e s)) (.stmt (.while_ e' s'))
  | function {marks d d'} (same : ρ.Agrees d.name d'.name)
    (becomes : ρ.Becomes (marks.headD false) d.name d'.name)
    (routine : Alike marks (.routine d) (.routine d')) :
    Alike marks (.stmt (.function d)) (.stmt (.function d'))
  | return_ {marks keyword keyword' i i'} (same : ρ.Agrees keyword keyword')
    (value : Alike marks (.clause i) (.clause i')) :
    Alike marks (.stmt (.return_ keyword i)) (.stmt (.return_ keyword' i'))
  | class_ {marks name name' clause clause' ds ds'} (same : ρ.Agrees name name')
    (becomes : ρ.Becomes (marks.headD false) name name')
    (parent : Option.Rel (ρ.Refers marks) clause clause')
    (methods : Alike (insideClass clause marks) (.routines ds) (.routines ds')) :
    Alike marks (.stmt (.class_ name clause ds)) (.stmt (.class_ name' clause' ds'))
  | noStmts {marks} : Alike marks (.stmts []) (.stmts [])
  | moreStmts {marks s s' ss ss'} (first : Alike marks (.stmt s) (.stmt s'))
    (rest : Alike marks (.stmts ss) (.stmts ss')) : Alike marks (.stmts (s :: ss)) (.stmts (s' :: ss'))
  | noBranch {marks} : Alike marks (.branch none) (.branch none)
  | someBranch {marks s s'} (taken : Alike marks (.stmt s) (.stmt s')) (plain : s.declared? = none) :
    Alike marks (.branch (some s)) (.branch (some s'))
  | routine {marks marked name name' ps ps' body body'} (stays : ρ.Stays marked)
    (same : ρ.Agrees name name') (parameters : List.Forall₂ (ρ.Becomes marked) ps ps')
    (statements : Alike (marked :: marks) (.stmts body) (.stmts body')) :
    Alike marks (.routine ⟨name, ps, body⟩) (.routine ⟨name', ps', body'⟩)
  | noRoutines {marks} : Alike marks (.routines []) (.routines [])
  | moreRoutines {marks d d' ds ds'} (first : Alike marks (.routine d) (.routine d'))
    (rest : Alike marks (.routines ds) (.routines ds')) :
    Alike marks (.routines (d :: ds)) (.routines (d' :: ds'))

/-- What is known of the names, the references and the keywords of a program: the new name is none of
them, the old one is no keyword, and all references have the depths of the first program in the second
one, too, which has all scopes. -/
structure Named (P : Token → Prop) (R Q : Reference → Prop) : Prop where
  whole : ρ.omits = false
  fresh : ∀ t, P t → t.lexeme ≠ ρ.new
  references : ∀ r, R r → r.name.lexeme ≠ ρ.new ∧ ρ.depths'[r.id]? = ρ.depths[r.id]?
  words : ∀ r, Q r →
    r.name.lexeme ≠ ρ.new ∧ r.name.lexeme ≠ ρ.old ∧ ρ.depths'[r.id]? = ρ.depths[r.id]?

/-- So they are named, and tokens may keep their lines. -/
structure Suits (P : Token → Prop) (R Q : Reference → Prop) : Prop extends ρ.Named P R Q where
  lines : ∀ line, ρ.line line line

variable {ρ} {P : Token → Prop} {R Q : Reference → Prop} {marks : List Bool} {marked : Bool}

theorem stays_false : ρ.Stays false := fun _ => rfl

theorem stays_of_whole (whole : ρ.omits = false) : ρ.Stays marked :=
  fun omits => absurd (whole.symm.trans omits) Bool.false_ne_true

theorem outward_zero (marks : List Bool) : ρ.outward marks 0 = 0 := by
  cases marks <;> rfl

theorem outward_of_whole (whole : ρ.omits = false) (marks : List Bool) (d : Nat) :
    ρ.outward marks d = d := by
  induction d generalizing marks with
  | zero => exact outward_zero marks
  | succ d ih =>
    cases marks with
    | nil => rfl
    | cons marked marks => simp only [outward, whole, Bool.false_and, Bool.false_eq_true, if_false, ih]

theorem outward_cons (stays : ρ.Stays marked) (marks : List Bool) (d : Nat) :
    ρ.outward (marked :: marks) (d + 1) = ρ.outward marks d + 1 := by
  have here : (ρ.omits && marked) = false := by
    cases omits : ρ.omits with
    | false => rfl
    | true => rw [stays omits, Bool.and_false]
  rw [outward, here, if_neg Bool.false_ne_true]

/-- Behind a scope that stays it is one step further. -/
theorem outward_succ {d : Nat} (stays : ρ.Stays (marks[d]?.getD false)) :
    ρ.outward marks (d + 1) = ρ.outward marks d + 1 := by
  induction d generalizing marks with
  | zero =>
    cases marks with
    | nil => rfl
    | cons marked marks =>
      have here : ρ.Stays marked := stays
      rw [outward_cons here, outward_zero]
      rfl
  | succ d ih =>
    cases marks with
    | nil => rfl
    | cons marked marks =>
      rw [outward, outward, ih stays]
      split <;> rfl

/-- Where all scopes are in both programs, the depths are the same. -/
theorem refers_of_whole (whole : ρ.omits = false) {r r' : Reference} (id : r'.id = r.id)
    (depth : ρ.depths'[r.id]? = ρ.depths[r.id]?) (name : ρ.Becomes (ρ.leads marks r.id) r.name r'.name) :
    ρ.Refers marks r r' := by
  refine ⟨fun _ => id, ?_, name⟩
  rw [id, depth, funext (outward_of_whole whole marks), Option.map_id']

namespace Suits

theorem same (suits : ρ.Suits P R Q) (t : Token) : ρ.Agrees t t := ⟨rfl, rfl, suits.lines _⟩

theorem becomes (suits : ρ.Suits P R Q) {t : Token} (held : P t) :
    ρ.Becomes marked t (ρ.token marked t) :=
  ⟨rfl, rfl, suits.lines _, suits.fresh t held, stays_of_whole suits.whole⟩

theorem refers (suits : ρ.Suits P R Q) {r : Reference} (held : R r) :
    ρ.Refers marks r (ρ.reference marks r) :=
  refers_of_whole suits.whole rfl (suits.references r held).2
    ⟨rfl, rfl, suits.lines _, (suits.references r held).1, stays_of_whole suits.whole⟩

theorem kept (suits : ρ.Suits P R Q) {t : Token} (held : P t)
    (kept : marked = true → t.lexeme ≠ ρ.old) : ρ.Becomes marked t t := by
  refine ⟨rfl, ?_, suits.lines _, suits.fresh t held, stays_of_whole suits.whole⟩
  cases marked with
  | false => exact (name_false _).symm
  | true => exact (name_of_ne (kept rfl) true).symm

theorem word (suits : ρ.Suits P R Q) {r : Reference} (held : Q r) : ρ.Refers marks r r := by
  obtain ⟨fresh, other, depth⟩ := suits.words r held
  exact refers_of_whole suits.whole rfl depth
    ⟨rfl, (name_of_ne other _).symm, suits.lines _, fresh, stays_of_whole suits.whole⟩

mutual

theorem expr (suits : ρ.Suits P R Q) : ∀ e, exprNames R Q e →
    ρ.Alike marks (.expr e) (.expr (ρ.expr marks e))
  | .literal _, _ => .literal
  | .grouping inner, held => .grouping (suits.expr inner held)
  | .unary operator right, held => .unary (suits.same operator) (suits.expr right held)
  | .binary left operator right, held =>
    .binary (suits.same operator) (suits.expr left held.1) (suits.expr right held.2)
  | .logical left operator right, held =>
    .logical (suits.same operator) (suits.expr left held.1) (suits.expr right held.2)
  | .conditional condition thenBranch elseBranch, held =>
    .conditional (suits.expr condition held.1) (suits.expr thenBranch held.2.1)
      (suits.expr elseBranch held.2.2)
  | .variable _, held => .variable (suits.refers held)
  | .assign _ value, held => .assign (suits.refers held.1) (suits.expr value held.2)
  | .call callee _ arguments, held =>
    .call (suits.lines _) (suits.expr callee held.1) (suits.exprs arguments held.2)
  | .get object name, held => .get (suits.same name) (suits.expr object held)
  | .set object name value, held =>
    .set (suits.same name) (suits.expr object held.1) (suits.expr value held.2)
  | .this _, held => .this (suits.word held)
  | .super _ method, held =>
    .super (suits.word held) (fun _ _ => stays_of_whole suits.whole) (suits.same method)

theorem exprs (suits : ρ.Suits P R Q) : ∀ es, exprsNames R Q es →
    ρ.Alike marks (.exprs es) (.exprs (ρ.exprs marks es))
  | [], _ => .noExprs
  | e :: rest, held => .moreExprs (suits.expr e held.1) (suits.exprs rest held.2)

end

theorem clause (suits : ρ.Suits P R Q) (e : Option Expr) (held : clauseNames R Q e) :
    ρ.Alike marks (.clause e) (.clause (ρ.clause marks e)) := by
  cases e with
  | none => exact .noClause
  | some e => exact .someClause (suits.expr e held)

theorem superclass (suits : ρ.Suits P R Q) (clause : Option Reference) (held : ∀ r ∈ clause, R r) :
    Option.Rel (ρ.Refers marks) clause (ρ.superclass marks clause) := by
  cases clause with
  | none => exact .none
  | some r => exact .some (suits.refers (held r rfl))

theorem parameters (suits : ρ.Suits P R Q) {ps : List Token} (held : ∀ p ∈ ps, P p) :
    List.Forall₂ (ρ.Becomes marked) ps (ps.map (ρ.token marked)) := by
  induction ps with
  | nil => exact .nil
  | cons p rest ih =>
    exact .cons (suits.becomes (held p List.mem_cons_self))
      (ih fun q member => held q (List.mem_cons_of_mem _ member))

mutual

theorem stmt (suits : ρ.Suits P R Q) : ∀ marks s, stmtNames P R Q s → ρ.Keeps (marks.headD false) s →
    ρ.Alike marks (.stmt s) (.stmt (ρ.stmt marks s))
  | _, .expression e, held, _ => .expression (suits.expr e held)
  | _, .print e, held, _ => .print (suits.expr e held)
  | _, .var _ initializer, held, _ => .var (suits.becomes held.1) (suits.clause initializer held.2)
  | marks, .block body, held, _ =>
    .block stays_false (suits.stmts (false :: marks) body held fun _ _ => keeps_unmarked)
  | marks, .if_ condition thenBranch none, held, _ =>
    .if_ (suits.expr condition held.1) (suits.stmt marks thenBranch held.2.1 (keeps_plain held.2.2))
      held.2.2 .noBranch
  | marks, .if_ condition thenBranch (some elseBranch), held, _ =>
    .if_ (suits.expr condition held.1) (suits.stmt marks thenBranch held.2.1.1 (keeps_plain held.2.1.2))
      held.2.1.2
      (.someBranch (suits.stmt marks elseBranch held.2.2.1 (keeps_plain held.2.2.2)) held.2.2.2)
  | marks, .while_ condition body, held, _ =>
    .while_ (suits.expr condition held.1) (suits.stmt marks body held.2.1 (keeps_plain held.2.2))
      held.2.2
  | marks, .function ⟨name, parameters, body⟩, held, keeps =>
    .function (suits.same name) (suits.kept held.1 fun marked => keeps marked name rfl nofun)
      (suits.declaration false marks ⟨name, parameters, body⟩ held fun _ _ => keeps_unmarked)
  | _, .return_ keyword value, held, _ => .return_ (suits.same keyword) (suits.clause value held)
  | marks, .class_ name clause methods, held, keeps =>
    .class_ (suits.same name) (suits.kept held.1 fun marked => keeps marked name rfl nofun)
      (suits.superclass clause held.2.1)
      (suits.declarations (insideClass clause marks) methods held.2.2)

theorem stmts (suits : ρ.Suits P R Q) : ∀ marks body, stmtsNames P R Q body →
    (∀ s ∈ body, ρ.Keeps (marks.headD false) s) →
    ρ.Alike marks (.stmts body) (.stmts (ρ.stmts marks body))
  | _, [], _, _ => .noStmts
  | marks, s :: rest, held, keeps =>
    .moreStmts (suits.stmt marks s held.1 (keeps s List.mem_cons_self))
      (suits.stmts marks rest held.2 fun s' later => keeps s' (List.mem_cons_of_mem _ later))

theorem declaration (suits : ρ.Suits P R Q) : ∀ marked marks (d : Declaration), declarationNames P R Q d →
    (∀ s ∈ d.body, ρ.Keeps marked s) →
    ρ.Alike marks (.routine d) (.routine (ρ.declaration marked marks d))
  | marked, marks, ⟨name, _, body⟩, held, keeps =>
    .routine (stays_of_whole suits.whole) (suits.same name) (suits.parameters held.2.1)
      (suits.stmts (marked :: marks) body held.2.2 keeps)

theorem declarations (suits : ρ.Suits P R Q) : ∀ marks ds, declarationsNames P R Q ds →
    ρ.Alike marks (.routines ds) (.routines (ρ.declarations marks ds))
  | _, [], _ => .noRoutines
  | marks, d :: rest, held =>
    .moreRoutines (suits.declaration false marks d held.1 fun _ _ => keeps_unmarked)
      (suits.declarations marks rest held.2)

end

end Suits

end Comparison
end LoxLang
