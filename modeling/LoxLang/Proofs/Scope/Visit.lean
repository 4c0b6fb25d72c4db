import LoxLang.Proofs.Scope.Identity
import LoxLang.Proofs.Scope.Recording
import Mathlib.Logic.Relation

/-! The walk over scopes, visit by visit. A visit is a part of a program that the walk comes to, with the
state in which it comes there. Records change only where the walk comes to locate a reference, and a visit
that finds no fault comes to locate every reference of its part. -/
namespace LoxLang.Scope

/-- The parts of the walk. -/
inductive Part where
  | expr (context : Context) (e : Expr)
  | exprs (context : Context) (es : List Expr)
  | optional (context : Context) (e : Option Expr)
  | superclass (name : Token) (clause : Option Reference)
  | read (r : Reference)
  | locate (r : Reference)
  | stmt (context : Context) (s : Stmt)
  | stmts (context : Context) (body : List Stmt)
  | routine (context : Context) (kind : Body) (d : Declaration)
  | methods (context : Context) (ds : List Declaration)

namespace Part

def walk : Part → Walk Unit
  | .expr context e => walkExpr context e
  | .exprs context es => walkExprs context es
  | .optional context e => walkOptional context e
  | .superclass name clause => walkSuperclass name clause
  | .read r => readVariable r
  | .locate r => Scope.locate r
  | .stmt context s => walkStmt context s
  | .stmts context body => walkStmts context body
  | .routine context kind d => walkDeclaration context kind d
  | .methods context ds => walkMethods context ds

/-- The references in the part. -/
def references : Part → List Reference
  | .expr _ e => e.references
  | .exprs _ es => Expr.referencesOf es
  | .optional _ e => Expr.optionalReferences e
  | .superclass _ clause => clause.toList
  | .read r => [r]
  | .locate r => [r]
  | .stmt _ s => s.references
  | .stmts _ body => Stmt.referencesOf body
  | .routine _ _ d => Declaration.references d
  | .methods _ ds => Declaration.referencesOf ds

end Part

/-- A part that the walk comes to in this state. -/
structure Visit where
  part : Part
  state : State

/-- The state inside a new innermost scope. -/
def State.opened (s : State) : State := { s with scopes := [] :: s.scopes }

/-- The state inside the scopes around the methods of a class. -/
def State.inClass (s : State) : Option Reference → State
  | none => { s with scopes := [("this", true)] :: s.scopes }
  | some _ => { s with scopes := [("this", true)] :: [("super", true)] :: s.scopes }

/-- The fault of a class that names itself as its superclass is reported. -/
def checkSuperclass (name : Token) (r : Reference) : Walk Unit :=
  if r.name.lexeme = name.lexeme then report .inheritsFromItself r.name else pure ()

/-- The first visit comes to the second one. -/
inductive Comes : Visit → Visit → Prop
  | grouping {context inner s} : Comes ⟨.expr context (.grouping inner), s⟩ ⟨.expr context inner, s⟩
  | unary {context operator right s} :
    Comes ⟨.expr context (.unary operator right), s⟩ ⟨.expr context right, s⟩
  | binaryLeft {context left operator right s} :
    Comes ⟨.expr context (.binary left operator right), s⟩ ⟨.expr context left, s⟩
  | binaryRight {context left operator right s next} (first : walkExpr context left s = .ok () next) :
    Comes ⟨.expr context (.binary left operator right), s⟩ ⟨.expr context right, next⟩
  | logicalLeft {context left operator right s} :
    Comes ⟨.expr context (.logical left operator right), s⟩ ⟨.expr context left, s⟩
  | logicalRight {context left operator right s next} (first : walkExpr context left s = .ok () next) :
    Comes ⟨.expr context (.logical left operator right), s⟩ ⟨.expr context right, next⟩
  | condition {context test thenBranch elseBranch s} :
    Comes ⟨.expr context (.conditional test thenBranch elseBranch), s⟩ ⟨.expr context test, s⟩
  | thenValue {context test thenBranch elseBranch s next} (first : walkExpr context test s = .ok () next) :
    Comes ⟨.expr context (.conditional test thenBranch elseBranch), s⟩ ⟨.expr context thenBranch, next⟩
  | elseValue {context test thenBranch elseBranch s next last}
    (first : walkExpr context test s = .ok () next)
    (second : walkExpr context thenBranch next = .ok () last) :
    Comes ⟨.expr context (.conditional test thenBranch elseBranch), s⟩ ⟨.expr context elseBranch, last⟩
  | variable {context r s} : Comes ⟨.expr context (.variable r), s⟩ ⟨.read r, s⟩
  | allowed {r s} (free : s.scopes.head?.bind (·.get? r.name.lexeme) ≠ some false) :
    Comes ⟨.read r, s⟩ ⟨.locate r, s⟩
  | assigned {context r value s} :
    Comes ⟨.expr context (.assign r value), s⟩ ⟨.expr context value, s⟩
  | target {context r value s next} (first : walkExpr context value s = .ok () next) :
    Comes ⟨.expr context (.assign r value), s⟩ ⟨.locate r, next⟩
  | callee {context function paren arguments s} :
    Comes ⟨.expr context (.call function paren arguments), s⟩ ⟨.expr context function, s⟩
  | arguments {context function paren arguments s next}
    (first : walkExpr context function s = .ok () next) :
    Comes ⟨.expr context (.call function paren arguments), s⟩ ⟨.exprs context arguments, next⟩
  | getObject {context object name s} :
    Comes ⟨.expr context (.get object name), s⟩ ⟨.expr context object, s⟩
  | setValue {context object name value s} :
    Comes ⟨.expr context (.set object name value), s⟩ ⟨.expr context value, s⟩
  | setObject {context object name value s next} (first : walkExpr context value s = .ok () next) :
    Comes ⟨.expr context (.set object name value), s⟩ ⟨.expr context object, next⟩
  | this {context r s} (inside : context.cls ≠ none) :
    Comes ⟨.expr context (.this r), s⟩ ⟨.locate r, s⟩
  | super {context r method s} (inside : context.cls = some .derived) :
    Comes ⟨.expr context (.super r method), s⟩ ⟨.locate r, s⟩
  | firstValue {context e rest s} : Comes ⟨.exprs context (e :: rest), s⟩ ⟨.expr context e, s⟩
  | laterValues {context e rest s next} (first : walkExpr context e s = .ok () next) :
    Comes ⟨.exprs context (e :: rest), s⟩ ⟨.exprs context rest, next⟩
  | given {context e s} : Comes ⟨.optional context (some e), s⟩ ⟨.expr context e, s⟩
  | named {name r s next} (checked : checkSuperclass name r s = .ok () next) :
    Comes ⟨.superclass name (some r), s⟩ ⟨.read r, next⟩
  | expression {context e s} : Comes ⟨.stmt context (.expression e), s⟩ ⟨.expr context e, s⟩
  | printed {context e s} : Comes ⟨.stmt context (.print e), s⟩ ⟨.expr context e, s⟩
  | initializer {context name value s next} (declared : declare name s = .ok () next) :
    Comes ⟨.stmt context (.var name value), s⟩ ⟨.optional context value, next⟩
  | block {context body s} : Comes ⟨.stmt context (.block body), s⟩ ⟨.stmts context body, s.opened⟩
  | test {context test thenBranch elseBranch s} :
    Comes ⟨.stmt context (.if_ test thenBranch elseBranch), s⟩ ⟨.expr context test, s⟩
  | thenBranch {context test thenBranch elseBranch s next}
    (first : walkExpr context test s = .ok () next) :
    Comes ⟨.stmt context (.if_ test thenBranch elseBranch), s⟩ ⟨.stmt context thenBranch, next⟩
  | elseBranch {context test thenBranch elseBranch s next last}
    (first : walkExpr context test s = .ok () next)
    (second : walkStmt context thenBranch next = .ok () last) :
    Comes ⟨.stmt context (.if_ test thenBranch (some elseBranch)), s⟩ ⟨.stmt context elseBranch, last⟩
  | round {context test body s} : Comes ⟨.stmt context (.while_ test body), s⟩ ⟨.expr context test, s⟩
  | roundBody {context test body s next} (first : walkExpr context test s = .ok () next) :
    Comes ⟨.stmt context (.while_ test body), s⟩ ⟨.stmt context body, next⟩
  | function {context d s next} (introduced : introduce d.name s = .ok () next) :
    Comes ⟨.stmt context (.function d), s⟩ ⟨.routine context .function d, next⟩
  | returned {context keyword value s next} (checked : checkReturn context keyword value s = .ok () next) :
    Comes ⟨.stmt context (.return_ keyword value), s⟩ ⟨.optional context value, next⟩
  | parent {context name clause methods s next} (introduced : introduce name s = .ok () next) :
    Comes ⟨.stmt context (.class_ name clause methods), s⟩ ⟨.superclass name clause, next⟩
  | methods {context name clause methods s next last} (introduced : introduce name s = .ok () next)
    (first : walkSuperclass name clause next = .ok () last) :
    Comes ⟨.stmt context (.class_ name clause methods), s⟩
      ⟨.methods (classContext context clause) methods, last.inClass clause⟩
  | firstStatement {context s' rest s} : Comes ⟨.stmts context (s' :: rest), s⟩ ⟨.stmt context s', s⟩
  | laterStatements {context s' rest s next} (first : walkStmt context s' s = .ok () next) :
    Comes ⟨.stmts context (s' :: rest), s⟩ ⟨.stmts context rest, next⟩
  | body {context kind name parameters body s next}
    (introduced : introduceAll parameters s.opened = .ok () next) :
    Comes ⟨.routine context kind ⟨name, parameters, body⟩, s⟩
      ⟨.stmts { context with body := some kind } body, next⟩
  | firstMethod {context d rest s} :
    Comes ⟨.methods context (d :: rest), s⟩ ⟨.routine context (methodBody d) d, s⟩
  | laterMethods {context d rest s next} (first : walkDeclaration context (methodBody d) d s = .ok () next) :
    Comes ⟨.methods context (d :: rest), s⟩ ⟨.methods context rest, next⟩

theorem ifReferences (condition : Expr) (thenBranch : Stmt) (elseBranch : Option Stmt) :
    (Stmt.if_ condition thenBranch elseBranch).references =
      condition.references ++ (thenBranch.references ++ elseBranch.elim [] Stmt.references) := by
  cases elseBranch with
  | none => rw [Stmt.references, Option.elim_none, List.append_nil]
  | some _ => rfl

/-- What a visit comes to consists of references of the part that it visits. -/
theorem Comes.references {outer inner : Visit} (comes : Comes outer inner) :
    inner.part.references ⊆ outer.part.references := by
  cases comes <;> simp [Part.references, Expr.references, Expr.referencesOf, Expr.optionalReferences,
    ifReferences, Stmt.references, Stmt.referencesOf, Declaration.references, Declaration.referencesOf]

/-- A part of the walk that records nothing. -/
def Still (walk : Walk Unit) : Prop :=
  ∀ s, Ends walk s (fun _ last => last.depths = s.depths ∧ s.reported <+: last.reported)
    fun _ last => last.depths = s.depths

namespace Still

variable {first second : Walk Unit}

theorem of_kept {walk : Walk Unit} {s next : State} (ended : walk s = .ok () next)
    (depths : next.depths = s.depths) (reported : next.reported = s.reported) :
    Ends walk s (fun _ last => last.depths = s.depths ∧ s.reported <+: last.reported)
      fun _ last => last.depths = s.depths :=
  .of_ok ended ⟨depths, reported ▸ List.prefix_refl _⟩

theorem pure : Still (Pure.pure ()) := fun _ => of_kept rfl rfl rfl

theorem report (cause : ScopeError.Cause) (t : Token) : Still (Scope.report cause t) :=
  fun _ => .of_ok rfl ⟨rfl, List.prefix_append _ _⟩

theorem bind (one : Still first) (two : Still second) : Still (first >>= fun _ => second) := by
  intro s
  apply (one s).bind
  rintro _ middle _ ⟨same, reports⟩
  exact (two middle).mono (fun _ _ later => ⟨later.1.trans same, reports.trans later.2⟩)
    fun _ _ later => later.trans same

theorem mark (name : String) (ready : Bool) : Still (Scope.mark name ready) := by
  intro s
  cases found : s.scopes with
  | nil =>
    have ended : Scope.mark name ready s = .ok () s := by simp only [Scope.mark, found]
    exact of_kept ended rfl rfl
  | cons scope outer =>
    have ended : Scope.mark name ready s =
        .ok () { s with scopes := scope.set name ready :: outer } := by simp only [Scope.mark, found]
    exact of_kept ended rfl rfl

theorem declare (name : Token) : Still (Scope.declare name) := by
  intro s
  cases found : s.scopes with
  | nil =>
    have ended : Scope.declare name s = .ok () s := by simp only [Scope.declare, found]
    exact of_kept ended rfl rfl
  | cons scope outer =>
    by_cases twice : scope.contains name.lexeme
    · have ended : Scope.declare name s = .error ⟨.declaredTwice, name⟩ s := by
        simp only [Scope.declare, found, twice, if_true]
      exact .of_error ended rfl
    · apply (mark name.lexeme false s).of_eq
      simp only [Scope.declare, found, twice]
      rfl

theorem introduce (name : Token) : Still (Scope.introduce name) := (declare name).bind (mark _ _)

theorem introduceAll (names : List Token) : Still (Scope.introduceAll names) := by
  induction names with
  | nil => exact pure
  | cons name rest ih => exact (introduce name).bind ih

theorem checkSuperclass (name : Token) (r : Reference) : Still (Scope.checkSuperclass name r) := by
  unfold Scope.checkSuperclass
  split
  · exact report _ _
  · exact pure

theorem checkReturn (context : Context) (keyword : Token) (value : Option Expr) :
    Still (Scope.checkReturn context keyword value) := by
  let judgeValue : Walk Unit := if context.body = some .initializer && value.isSome then
    Scope.report .valueFromInitializer keyword else Pure.pure ()
  have valued : Still judgeValue := by
    unfold judgeValue
    split
    · exact report _ _
    · exact pure
  change Still (if context.body = none then do Scope.report .returnOutsideFunction keyword; judgeValue
    else judgeValue)
  split
  · exact (report _ _).bind valued
  · exact valued

theorem ended {walk : Walk Unit} (still : Still walk) {s next : State} (ended : walk s = .ok () next) :
    next.depths = s.depths :=
  ((still s).ok_of ended).1

end Still

section

open Relation

/-- The record of each reference is what it was before the visit, unless the visit comes to locate it. -/
def Recorded (visit : Visit) (last : State) : Prop :=
  ∀ id : NodeId, last.depths[id]? = visit.state.depths[id]? ∨
    ∃ r s, ReflTransGen Comes visit ⟨.locate r, s⟩ ∧ r.id = id

/-- The visit has come to locate these references, unless it has found a fault. -/
structure Covered (visit : Visit) (done : List Reference) (last : State) : Prop where
  recorded : Recorded visit last
  reports : visit.state.reported <+: last.reported
  located : last.reported = visit.state.reported →
    ∀ r ∈ done, ∃ s, ReflTransGen Comes visit ⟨.locate r, s⟩

theorem Recorded.onward {visit inner : Visit} {last : State} (before : Recorded visit inner.state)
    (comes : Comes visit inner) (recorded : Recorded inner last) : Recorded visit last := by
  intro id
  rcases recorded id with same | ⟨r, s, reached, own⟩
  · rw [same]
    exact before id
  · exact .inr ⟨r, s, .head comes reached, own⟩

theorem Recorded.after {visit : Visit} {s last : State} (recorded : Recorded visit s)
    (same : last.depths = s.depths) : Recorded visit last := by
  intro id
  rw [same]
  exact recorded id

namespace Covered

variable {visit inner : Visit} {done more : List Reference} {s last : State}

theorem start : Covered visit [] visit.state :=
  ⟨fun _ => .inl rfl, List.prefix_refl _, fun _ _ => nofun⟩

theorem opened : Covered visit [] visit.state.opened :=
  ⟨fun _ => .inl rfl, List.prefix_refl _, fun _ _ => nofun⟩

theorem onward (before : Covered visit done inner.state) (comes : Comes visit inner)
    (covered : Covered inner more last) : Covered visit (done ++ more) last := by
  refine ⟨before.recorded.onward comes covered.recorded, before.reports.trans covered.reports, ?_⟩
  intro clean r member
  -- No fault was found on either part of the way.
  have between : inner.state.reported = visit.state.reported :=
    (before.reports.eq_of_length_le (clean ▸ covered.reports.length_le)).symm
  obtain member | member := List.mem_append.mp member
  · exact before.located between r member
  · obtain ⟨s, reached⟩ := covered.located (clean.trans between.symm) r member
    exact ⟨s, .head comes reached⟩

theorem after (covered : Covered visit done s) (same : last.depths = s.depths)
    (reports : s.reported <+: last.reported) : Covered visit done last := by
  refine ⟨covered.recorded.after same, covered.reports.trans reports, ?_⟩
  intro clean
  exact covered.located (covered.reports.eq_of_length_le (clean ▸ reports.length_le)).symm

theorem mono (covered : Covered visit done last) (within : more ⊆ done) : Covered visit more last :=
  ⟨covered.recorded, covered.reports, fun clean r member => covered.located clean r (within member)⟩

end Covered

/-- The walk of a visit, or of the rest of one, that ends when these references are located. -/
def Covering (visit : Visit) (walk : Walk Unit) (s : State) (done : List Reference) : Prop :=
  Ends walk s (fun _ last => Covered visit done last) fun _ last => Recorded visit last

/-- This walk of the part locates its references. -/
def Covers (part : Part) (walk : Walk Unit) : Prop := ∀ s, Covering ⟨part, s⟩ walk s part.references

namespace Covering

variable {visit : Visit} {part : Part} {walk step rest : Walk Unit} {s : State} {done all : List Reference}

theorem stop (covered : Covered visit done s) : Covering visit (pure ()) s done := covered

theorem reporting {cause : ScopeError.Cause} {t : Token} (before : Covered visit [] s) :
    Covering visit (report cause t) s done := by
  refine Ends.of_ok rfl ⟨before.recorded.after rfl, before.reports.trans (List.prefix_append _ _), ?_⟩
  intro clean
  have shorter := before.reports.length_le
  have same := congrArg List.length clean
  simp only [List.length_append, List.length_singleton] at same
  omega

theorem mono (covering : Covering visit walk s all) (within : done ⊆ all) : Covering visit walk s done :=
  Ends.mono covering (fun _ _ covered => covered.mono within) fun _ _ => id

/-- The walk comes to a part. -/
theorem enter (before : Covered visit done s) (comes : Comes visit ⟨part, s⟩) (covers : Covers part walk) :
    Covering visit walk s (done ++ part.references) :=
  Ends.mono (covers s) (fun _ _ covered => before.onward comes covered)
    fun _ _ recorded => before.recorded.onward comes recorded

/-- The walk goes on behind a part of it. -/
theorem andThen (first : Covering visit walk s done)
    (onward : ∀ next, walk s = .ok () next → Covered visit done next → Covering visit rest next all) :
    Covering visit (walk >>= fun _ => rest) s all :=
  Ends.bind first fun _ next ended covered => onward next ended covered

/-- A step that records nothing. -/
theorem still (before : Covered visit done s) (still : Still step) : Covering visit step s done :=
  (still s).mono (fun _ _ kept => before.after kept.1 kept.2) fun _ _ same => before.recorded.after same

end Covering

end

theorem locate_covers (r : Reference) : Covers (.locate r) (locate r) := by
  intro s
  have here : ∀ r' ∈ [r], ∃ s', Relation.ReflTransGen Comes ⟨.locate r, s⟩ ⟨.locate r', s'⟩ := by
    intro _ member
    obtain rfl := List.mem_singleton.mp member
    exact ⟨s, .refl⟩
  cases found : s.scopes.findIdx? (·.contains r.name.lexeme) with
  | none => exact Ends.of_ok (locate_none found) ⟨fun _ => .inl rfl, List.prefix_refl _, fun _ => here⟩
  | some depth =>
    refine Ends.of_ok (locate_some found) ⟨?_, List.prefix_refl _, fun _ => here⟩
    intro id
    by_cases own : r.id = id
    · exact .inr ⟨r, s, .refl, own⟩
    · left
      simp only [Std.TreeMap.getElem?_insert, Std.LawfulEqCmp.compare_eq_iff_eq]
      exact if_neg own

theorem read_covers (r : Reference) : Covers (.read r) (readVariable r) := by
  intro s
  have reading := readVariable_eq r s
  split at reading
  · exact .of_error reading fun _ => .inl rfl
  · next free => exact (Covering.enter .start (.allowed free) (locate_covers r)).of_eq reading

mutual

theorem expr_covers (context : Context) : ∀ e, Covers (.expr context e) (walkExpr context e)
  | .literal _, _ => .stop .start
  | .grouping inner, _ => .enter .start .grouping (expr_covers context inner)
  | .unary _ right, _ => .enter .start .unary (expr_covers context right)
  | .binary left _ right, _ =>
    (Covering.enter .start .binaryLeft (expr_covers context left)).andThen fun _ first covered =>
      .enter covered (.binaryRight first) (expr_covers context right)
  | .logical left _ right, _ =>
    (Covering.enter .start .logicalLeft (expr_covers context left)).andThen fun _ first covered =>
      .enter covered (.logicalRight first) (expr_covers context right)
  | .conditional condition thenBranch elseBranch, _ =>
    (Covering.enter .start .condition (expr_covers context condition)).andThen fun _ first covered =>
      (Covering.enter covered (.thenValue first) (expr_covers context thenBranch)).andThen
        fun _ second covered =>
          (Covering.enter covered (.elseValue first second) (expr_covers context elseBranch)).mono
            (List.append_assoc _ _ _ ▸ List.Subset.refl _)
  | .variable r, _ => .enter .start .variable (read_covers r)
  | .assign r value, _ =>
    (Covering.enter .start .assigned (expr_covers context value)).andThen fun _ first covered =>
      .enter covered (.target first) (locate_covers r)
  | .call callee _ arguments, _ =>
    (Covering.enter .start .callee (expr_covers context callee)).andThen fun _ first covered =>
      .enter covered (.arguments first) (exprs_covers context arguments)
  | .get object _, _ => .enter .start .getObject (expr_covers context object)
  | .set object _ value, _ =>
    (Covering.enter .start .setValue (expr_covers context value)).andThen fun _ first covered =>
      .enter covered (.setObject first) (expr_covers context object)
  | .this r, s => by
    change Covering _ (readThis context r) s _
    unfold readThis
    cases outside : context.cls with
    | none => exact .reporting .start
    | some kind => exact .enter .start (.this (by simp [outside])) (locate_covers r)
  | .super r method, s => by
    change Covering _ (readSuper context r) s _
    unfold readSuper
    cases inside : context.cls with
    | none => exact .reporting .start
    | some kind =>
      cases kind with
      | plain => exact .reporting .start
      | derived => exact .enter .start (.super inside) (locate_covers r)

theorem exprs_covers (context : Context) : ∀ es, Covers (.exprs context es) (walkExprs context es)
  | [], _ => .stop .start
  | e :: rest, _ =>
    (Covering.enter .start .firstValue (expr_covers context e)).andThen fun _ first covered =>
      .enter covered (.laterValues first) (exprs_covers context rest)

end

theorem optional_covers (context : Context) (e : Option Expr) :
    Covers (.optional context e) (walkOptional context e) := by
  intro s
  cases e with
  | none => exact .stop .start
  | some e => exact .enter .start .given (expr_covers context e)

theorem walkSuperclass_eq (name : Token) (r : Reference) :
    walkSuperclass name (some r) = (do checkSuperclass name r; readVariable r) := by
  rw [walkSuperclass, checkSuperclass]
  by_cases same : r.name.lexeme = name.lexeme
  · rw [if_pos same, if_pos same]
  · rw [if_neg same, if_neg same]
    rfl

theorem superclass_covers (name : Token) (clause : Option Reference) :
    Covers (.superclass name clause) (walkSuperclass name clause) := by
  intro s
  cases clause with
  | none => exact .stop .start
  | some r =>
    rw [walkSuperclass_eq]
    exact (Covering.still .start (.checkSuperclass name r)).andThen fun _ checked covered =>
      .enter covered (.named checked) (read_covers r)

theorem State.inClass_depths (s : State) (clause : Option Reference) :
    (s.inClass clause).depths = s.depths := by
  cases clause <;> rfl

theorem State.inClass_reported (s : State) (clause : Option Reference) :
    (s.inClass clause).reported = s.reported := by
  cases clause <;> rfl

theorem Covered.inClass {visit : Visit} {done : List Reference} {s : State} (covered : Covered visit done s)
    (clause : Option Reference) : Covered visit done (s.inClass clause) :=
  covered.after (s.inClass_depths clause) (s.inClass_reported clause ▸ List.prefix_refl _)

/-- A scope is closed. -/
def close : Walk Unit := modify fun s => { s with scopes := s.scopes.tail }

theorem Still.close : Still close := fun _ => of_kept rfl rfl rfl

theorem inside_eq (walk : Walk Unit) (s : State) :
    inside walk s = (do walk; close : Walk Unit) s.opened := rfl

/-- The scopes around the methods of a class are closed. -/
def closeClass : Option Reference → Walk Unit
  | none => close
  | some _ => do
    close
    close

theorem Still.closeClass (clause : Option Reference) : Still (closeClass clause) := by
  cases clause with
  | none => exact .close
  | some _ => exact Still.close.bind .close

theorem insideClass_eq (clause : Option Reference) (walk : Walk Unit) (s : State) :
    insideClass clause walk s = (do walk; closeClass clause : Walk Unit) (s.inClass clause) := by
  cases clause with
  | none => rfl
  | some _ =>
    rw [closeClass, ← bind_assoc]
    rfl

theorem Covering.inside {visit : Visit} {walk : Walk Unit} {s : State} {done : List Reference}
    (inner : Covering visit walk s.opened done) : Covering visit (inside walk) s done :=
  (inner.andThen fun _ _ covered => .still covered .close).of_eq (inside_eq walk s)

theorem Covering.insideClass {visit : Visit} {walk : Walk Unit} {s : State} {done : List Reference}
    (clause : Option Reference) (inner : Covering visit walk (s.inClass clause) done) :
    Covering visit (insideClass clause walk) s done :=
  (inner.andThen fun _ _ covered => .still covered (.closeClass clause)).of_eq (insideClass_eq clause walk s)

mutual

theorem stmt_covers (context : Context) : ∀ s, Covers (.stmt context s) (walkStmt context s)
  | .expression e, _ => .enter .start .expression (expr_covers context e)
  | .print e, _ => .enter .start .printed (expr_covers context e)
  | .var name initializer, _ =>
    (Covering.still .start (.declare name)).andThen fun _ declared covered =>
      (Covering.enter covered (.initializer declared) (optional_covers context initializer)).andThen
        fun _ _ covered => .still covered (.mark name.lexeme true)
  | .block body, _ => Covering.inside <| .enter .opened .block (stmts_covers context body)
  | .if_ condition thenBranch none, _ =>
    (Covering.enter .start .test (expr_covers context condition)).andThen fun _ first covered =>
      .enter covered (.thenBranch first) (stmt_covers context thenBranch)
  | .if_ condition thenBranch (some elseBranch), _ =>
    (Covering.enter .start .test (expr_covers context condition)).andThen fun _ first covered =>
      (Covering.enter covered (.thenBranch first) (stmt_covers context thenBranch)).andThen
        fun _ second covered =>
          (Covering.enter covered (.elseBranch first second) (stmt_covers context elseBranch)).mono
            (List.append_assoc _ _ _ ▸ List.Subset.refl _)
  | .while_ condition body, _ =>
    (Covering.enter .start .round (expr_covers context condition)).andThen fun _ first covered =>
      .enter covered (.roundBody first) (stmt_covers context body)
  | .function d, _ =>
    (Covering.still .start (.introduce d.name)).andThen fun _ introduced covered =>
      .enter covered (.function introduced) (routine_covers context .function d)
  | .return_ keyword value, _ =>
    (Covering.still .start (.checkReturn context keyword value)).andThen fun _ checked covered =>
      .enter covered (.returned checked) (optional_covers context value)
  | .class_ name clause methods, _ =>
    (Covering.still .start (.introduce name)).andThen fun _ introduced covered =>
      (Covering.enter covered (.parent introduced) (superclass_covers name clause)).andThen
        fun _ first covered =>
          .insideClass clause <| .enter (covered.inClass clause) (.methods introduced first)
            (methods_covers (classContext context clause) methods)

theorem stmts_covers (context : Context) : ∀ body, Covers (.stmts context body) (walkStmts context body)
  | [], _ => .stop .start
  | s :: rest, _ =>
    (Covering.enter .start .firstStatement (stmt_covers context s)).andThen fun _ first covered =>
      .enter covered (.laterStatements first) (stmts_covers context rest)

theorem routine_covers (context : Context) (kind : Body) :
    ∀ d, Covers (.routine context kind d) (walkDeclaration context kind d)
  | ⟨_, parameters, body⟩, _ => Covering.inside <|
    (Covering.still .opened (.introduceAll parameters)).andThen fun _ introduced covered =>
      .enter covered (.body introduced) (stmts_covers { context with body := some kind } body)

theorem methods_covers (context : Context) : ∀ ds, Covers (.methods context ds) (walkMethods context ds)
  | [], _ => .stop .start
  | d :: rest, _ =>
    (Covering.enter .start .firstMethod (routine_covers context (methodBody d) d)).andThen
      fun _ first covered => .enter covered (.laterMethods first) (methods_covers context rest)

end

theorem part_covers : ∀ part : Part, Covers part part.walk
  | .expr context e => expr_covers context e
  | .exprs context es => exprs_covers context es
  | .optional context e => optional_covers context e
  | .superclass name clause => superclass_covers name clause
  | .read r => read_covers r
  | .locate r => locate_covers r
  | .stmt context s => stmt_covers context s
  | .stmts context body => stmts_covers context body
  | .routine context kind d => routine_covers context kind d
  | .methods context ds => methods_covers context ds

open Relation in
/-- What is come to on the way consists of references of the part that is visited. -/
theorem reached_references {visit inner : Visit} (reached : ReflTransGen Comes visit inner) :
    inner.part.references ⊆ visit.part.references := by
  induction reached with
  | refl => exact List.Subset.refl _
  | tail _ comes ih => exact List.Subset.trans comes.references ih

end LoxLang.Scope
