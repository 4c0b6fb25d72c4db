import LoxLang.Proofs.Grammar.Building.Statement
import LoxLang.Proofs.Scope.Occurrence

/-! The identities of references. Each reference in a tree that the grammar builds is made from a token
fit for its use, and no two references share an identity: those of a part of a tree lie in an interval
of its own, also where operands of a target are rebuilt or a loop is rewritten. -/
namespace LoxLang

mutual

/-- The references in the expression, in the order of the walk. -/
def Expr.references : Expr → List Reference
  | .literal _ => []
  | .grouping inner => inner.references
  | .unary _ right => right.references
  | .binary left _ right => left.references ++ right.references
  | .logical left _ right => left.references ++ right.references
  | .conditional condition thenBranch elseBranch =>
    condition.references ++ (thenBranch.references ++ elseBranch.references)
  | .variable r => [r]
  | .assign r value => value.references ++ [r]
  | .call callee _ arguments => callee.references ++ Expr.referencesOf arguments
  | .get object _ => object.references
  | .set object _ value => value.references ++ object.references
  | .this r => [r]
  | .super r _ => [r]

def Expr.referencesOf : List Expr → List Reference
  | [] => []
  | e :: rest => e.references ++ Expr.referencesOf rest

end

/-- The references in the optional expression. -/
def Expr.optionalReferences : Option Expr → List Reference
  | none => []
  | some e => e.references

mutual

/-- The references in the statement and in all code in it. -/
def Stmt.references : Stmt → List Reference
  | .expression e => e.references
  | .print e => e.references
  | .var _ initializer => Expr.optionalReferences initializer
  | .block body => Stmt.referencesOf body
  | .if_ condition thenBranch none => condition.references ++ thenBranch.references
  | .if_ condition thenBranch (some elseBranch) =>
    condition.references ++ (thenBranch.references ++ elseBranch.references)
  | .while_ condition body => condition.references ++ body.references
  | .function d => Declaration.references d
  | .return_ _ value => Expr.optionalReferences value
  | .class_ _ clause methods => clause.toList ++ Declaration.referencesOf methods

def Stmt.referencesOf : List Stmt → List Reference
  | [] => []
  | s :: rest => s.references ++ Stmt.referencesOf rest

def Declaration.references : Declaration → List Reference
  | ⟨_, _, body⟩ => Stmt.referencesOf body

def Declaration.referencesOf : List Declaration → List Reference
  | [] => []
  | d :: rest => Declaration.references d ++ Declaration.referencesOf rest

end

namespace Scope
open Grammar

/-- What the tokens must hold for a reference to be made from one of them. -/
def Use.Fits (tokens : List Token) : Use → Token → Prop
  | .read, t => IsName tokens t
  | .write, t => IsName tokens t
  | .this, t => t ∈ tokens ∧ t.kind = .keyword .this_
  | .super, t => t ∈ tokens ∧ t.kind = .keyword .super_

/-- The occurrences in a tree at these levels. -/
def treeOccurrences (levels : List Level) : Tree → List Occurrence
  | .expr e => exprOccurrences levels e
  | .exprs es => exprsOccurrences levels es
  | .clause e => clauseOccurrences levels e
  | .stmt s => stmtOccurrences levels s
  | .stmts body => stmtsOccurrences levels body
  | .branch none => []
  | .branch (some s) => stmtOccurrences levels s
  | .routine d => declarationOccurrences levels d
  | .routines ds => methodsOccurrences levels ds

/-- Each occurrence is by a token fit for it, and each has an identity of its own in the interval. -/
structure Numbered (tokens : List Token) (low high : Nat) (found : List Occurrence) : Prop where
  fit : ∀ o ∈ found, o.use.Fits tokens o.reference.name
  inside : ∀ o ∈ found, low ≤ o.id ∧ o.id < high
  apart : (found.map Occurrence.id).Nodup

namespace Numbered

variable {tokens : List Token} {low high low' high' low'' high'' : Nat} {found more : List Occurrence}

theorem nil : Numbered tokens low high [] := ⟨nofun, nofun, List.nodup_nil⟩

theorem single {use : Use} {r : Reference} {levels : List Level} (fits : use.Fits tokens r.name)
    (inside : low ≤ r.id ∧ r.id < high) : Numbered tokens low high [⟨use, r, levels⟩] where
  fit := List.forall_mem_singleton.mpr fits
  inside := List.forall_mem_singleton.mpr inside
  apart := by simp

theorem alone (numbered : Numbered tokens low high found) : Numbered tokens low high (found ++ []) := by
  rwa [List.append_nil]

theorem widen (numbered : Numbered tokens low' high' found) (below : low ≤ low')
    (above : high' ≤ high) : Numbered tokens low high found := by
  refine ⟨numbered.fit, ?_, numbered.apart⟩
  intro o member
  have inside := numbered.inside o member
  omega

/-- Two parts of a tree, in whichever order their identities were given out. -/
theorem append (one : Numbered tokens low' high' found) (two : Numbered tokens low'' high'' more)
    (inside : low ≤ low' ∧ high' ≤ high) (inside' : low ≤ low'' ∧ high'' ≤ high)
    (apart : high' ≤ low'' ∨ high'' ≤ low') : Numbered tokens low high (found ++ more) where
  fit := List.forall_mem_append.mpr ⟨one.fit, two.fit⟩
  inside := List.forall_mem_append.mpr
    ⟨(one.widen inside.1 inside.2).inside, (two.widen inside'.1 inside'.2).inside⟩
  apart := by
    rw [List.map_append, List.nodup_append]
    refine ⟨one.apart, two.apart, ?_⟩
    intro id here id' there
    obtain ⟨o, member, rfl⟩ := List.mem_map.mp here
    obtain ⟨o', member', rfl⟩ := List.mem_map.mp there
    have bounds := one.inside o member
    have bounds' := two.inside o' member'
    omega

theorem superclass {clause : Option Reference} (levels : List Level)
    (parent : ∀ r ∈ clause, IsName tokens r.name ∧ low ≤ r.id ∧ r.id < high) :
    Numbered tokens low high (superclassOccurrences levels clause) := by
  cases clause with
  | none => exact .nil
  | some r => exact .single (parent r rfl).1 (parent r rfl).2

end Numbered

section Tree

variable {tokens : List Token} {low high first second third : Nat} {s : Stmt} {step condition : Option Expr}

theorem numbered_loopBody (body : ∀ levels, Numbered tokens second high (stmtOccurrences levels s))
    (increment : ∀ levels, Numbered tokens first second (clauseOccurrences levels step))
    (ordered : first ≤ second) (ordered' : second ≤ high) (levels : List Level) :
    Numbered tokens first high (stmtOccurrences levels (loopBody s step)) := by
  cases step with
  | none => exact (body levels).widen ordered (Nat.le_refl _)
  | some e =>
    have last : Numbered tokens first second (stmtsOccurrences _ [.expression e]) :=
      (increment (behind s (⟨.block [s, .expression e], []⟩ :: levels))).alone
    exact (body _).append last (by omega) (by omega) (by omega)

theorem numbered_loop (body : ∀ levels, Numbered tokens third high (stmtOccurrences levels s))
    (increment : ∀ levels, Numbered tokens second third (clauseOccurrences levels step))
    (test : ∀ levels, Numbered tokens first second (clauseOccurrences levels condition))
    (ordered : first ≤ second) (ordered' : second ≤ third) (ordered'' : third ≤ high)
    (levels : List Level) : Numbered tokens first high (stmtOccurrences levels
      (.while_ (condition.getD (.literal (.boolean true))) (loopBody s step))) := by
  have tested : Numbered tokens first second
      (exprOccurrences levels (condition.getD (.literal (.boolean true)))) := by
    cases condition with
    | none => exact .nil
    | some e => exact test levels
  exact tested.append (numbered_loopBody body increment ordered' ordered'' levels) (by omega) (by omega)
    (by omega)

/-- The references of a tree have identities of their own in the interval of the tree. -/
theorem numbered_of_built {tree : Tree} (built : Built tokens low tree high) (levels : List Level) :
    Numbered tokens low high (treeOccurrences levels tree) := by
  induction built generalizing levels with
  | widen built below above ih => exact (ih levels).widen below above
  | literal | noExprs | noClause | noStmts | noBranch | noRoutines => exact .nil
  | grouping inner ih | unary _ _ inner ih | get _ inner ih | someClause inner ih | expression inner ih
  | print inner ih | block inner ih | function inner ih | return_ _ _ inner ih | someBranch inner ih
  | var _ inner ih => exact ih _
  | @operation tier _ _ _ _ _ _ _ _ left right ih ih' =>
    have below := left.ordered
    have above := right.ordered
    cases tier <;> exact (ih levels).append (ih' levels) (by omega) (by omega) (by omega)
  | power _ _ left right ih ih' | call _ _ left right ih ih' | moreExprs left right ih ih'
  | moreStmts left right ih ih' | moreRoutines left right ih ih' | while_ left right _ ih ih' =>
    have below := left.ordered
    have above := right.ordered
    exact (ih levels).append (ih' _) (by omega) (by omega) (by omega)
  | conditional condition thenBranch elseBranch ih ih₁ ih₂ =>
    have below := condition.ordered
    have between := thenBranch.ordered
    have above := elseBranch.ordered
    have branches := (ih₁ levels).append (ih₂ levels) ⟨Nat.le_refl _, above⟩ ⟨between, Nat.le_refl _⟩
      (.inl (Nat.le_refl _))
    exact (ih levels).append branches (by omega) (by omega) (by omega)
  | «variable» named => exact .single named ⟨Nat.le_refl _, Nat.lt_succ_self _⟩
  | @assign name e low high named value ih =>
    have ordered := value.ordered
    have target : Numbered tokens high (high + 1) [⟨.write, ⟨high, name⟩, levels⟩] :=
      .single named ⟨Nat.le_refl _, Nat.lt_succ_self _⟩
    exact (ih levels).append target (by omega) (by omega) (by omega)
  | set _ object value ih ih' =>
    -- the value is listed before the object, with the later identities
    have below := object.ordered
    have above := value.ordered
    exact (ih' levels).append (ih levels) (by omega) (by omega) (by omega)
  | this member kind => exact .single ⟨member, kind⟩ ⟨Nat.le_refl _, Nat.lt_succ_self _⟩
  | super member kind named => exact .single ⟨member, kind⟩ ⟨Nat.le_refl _, Nat.lt_succ_self _⟩
  | @if_ _ _ other _ _ _ _ condition thenBranch _ elseBranch _ ih ih₁ ih₂ =>
    have below := condition.ordered
    have between := thenBranch.ordered
    have above := elseBranch.ordered
    cases other with
    | none => exact (ih levels).append (ih₁ levels) (by omega) (by omega) (by omega)
    | some s' =>
      have branches := (ih₁ levels).append (ih₂ levels) ⟨Nat.le_refl _, above⟩ ⟨between, Nat.le_refl _⟩
        (.inl (Nat.le_refl _))
      exact (ih levels).append branches (by omega) (by omega) (by omega)
  | @for_ i _ _ _ _ _ _ _ _ initializer condition increment body _ ih ih₁ ih₂ ih₃ =>
    -- the increment is listed behind the body, with the earlier identities
    have ordered := initializer.ordered
    have ordered' := condition.ordered
    have ordered'' := increment.ordered
    have above := body.ordered
    have loop := numbered_loop ih₃ ih₂ ih₁ ordered' ordered'' above
    cases i with
    | none => exact (loop levels).widen ordered (Nat.le_refl _)
    | some s' => exact (ih _).append (loop _).alone (by omega) (by omega) (by omega)
  | class_ _ ordered parent methods ih =>
    exact (Numbered.superclass _ parent).append (ih _) ⟨Nat.le_refl _, methods.ordered⟩
      ⟨ordered, Nat.le_refl _⟩ (.inl (Nat.le_refl _))
  | routine _ _ statements ih => exact ih _

end Tree

mutual

theorem exprOccurrences_reference (levels : List Level) : ∀ e : Expr,
    (exprOccurrences levels e).map Occurrence.reference = e.references
  | .literal _ | .variable _ | .this _ | .super _ _ => rfl
  | .grouping inner => exprOccurrences_reference levels inner
  | .unary _ right => exprOccurrences_reference levels right
  | .binary left _ right | .logical left _ right => by
    rw [exprOccurrences, Expr.references, List.map_append, exprOccurrences_reference levels left,
      exprOccurrences_reference levels right]
  | .conditional condition thenBranch elseBranch => by
    rw [exprOccurrences, Expr.references, List.map_append, List.map_append,
      exprOccurrences_reference levels condition, exprOccurrences_reference levels thenBranch,
      exprOccurrences_reference levels elseBranch]
  | .assign r value => by
    rw [exprOccurrences, Expr.references, List.map_append, exprOccurrences_reference levels value]
    rfl
  | .call callee _ arguments => by
    rw [exprOccurrences, Expr.references, List.map_append, exprOccurrences_reference levels callee,
      exprsOccurrences_reference levels arguments]
  | .get object _ => exprOccurrences_reference levels object
  | .set object _ value => by
    rw [exprOccurrences, Expr.references, List.map_append, exprOccurrences_reference levels value,
      exprOccurrences_reference levels object]

theorem exprsOccurrences_reference (levels : List Level) : ∀ es : List Expr,
    (exprsOccurrences levels es).map Occurrence.reference = Expr.referencesOf es
  | [] => rfl
  | e :: rest => by
    rw [exprsOccurrences, Expr.referencesOf, List.map_append, exprOccurrences_reference levels e,
      exprsOccurrences_reference levels rest]

end

theorem clauseOccurrences_reference (levels : List Level) (e : Option Expr) :
    (clauseOccurrences levels e).map Occurrence.reference = Expr.optionalReferences e := by
  cases e with
  | none => rfl
  | some e => exact exprOccurrences_reference levels e

theorem superclassOccurrences_reference (levels : List Level) (clause : Option Reference) :
    (superclassOccurrences levels clause).map Occurrence.reference = clause.toList := by
  cases clause <;> rfl

mutual

theorem stmtOccurrences_reference : ∀ (levels : List Level) (s : Stmt),
    (stmtOccurrences levels s).map Occurrence.reference = s.references
  | levels, .expression e | levels, .print e => exprOccurrences_reference levels e
  | levels, .var _ initializer => clauseOccurrences_reference _ initializer
  | levels, .block body => stmtsOccurrences_reference _ body
  | levels, .if_ condition thenBranch none => by
    rw [stmtOccurrences, Stmt.references, List.map_append, exprOccurrences_reference levels condition,
      stmtOccurrences_reference levels thenBranch]
  | levels, .if_ condition thenBranch (some elseBranch) => by
    rw [stmtOccurrences, Stmt.references, List.map_append, List.map_append,
      exprOccurrences_reference levels condition, stmtOccurrences_reference levels thenBranch,
      stmtOccurrences_reference levels elseBranch]
  | levels, .while_ condition body => by
    rw [stmtOccurrences, Stmt.references, List.map_append, exprOccurrences_reference levels condition,
      stmtOccurrences_reference levels body]
  | levels, .function d => declarationOccurrences_reference _ d
  | levels, .return_ _ value => clauseOccurrences_reference levels value
  | levels, .class_ name clause methods => by
    rw [stmtOccurrences, Stmt.references, List.map_append, superclassOccurrences_reference,
      methodsOccurrences_reference _ methods]

theorem stmtsOccurrences_reference : ∀ (levels : List Level) (body : List Stmt),
    (stmtsOccurrences levels body).map Occurrence.reference = Stmt.referencesOf body
  | _, [] => rfl
  | levels, s :: rest => by
    rw [stmtsOccurrences, Stmt.referencesOf, List.map_append, stmtOccurrences_reference levels s,
      stmtsOccurrences_reference _ rest]

theorem declarationOccurrences_reference : ∀ (levels : List Level) (d : Declaration),
    (declarationOccurrences levels d).map Occurrence.reference = Declaration.references d
  | _, ⟨_, _, body⟩ => stmtsOccurrences_reference _ body

theorem methodsOccurrences_reference : ∀ (levels : List Level) (ds : List Declaration),
    (methodsOccurrences levels ds).map Occurrence.reference = Declaration.referencesOf ds
  | _, [] => rfl
  | levels, d :: rest => by
    rw [methodsOccurrences, Declaration.referencesOf, List.map_append,
      declarationOccurrences_reference levels d, methodsOccurrences_reference levels rest]

end

/-- No two references of a program that is read share an identity. -/
theorem references_nodup (tokens : List Token) :
    ((Stmt.referencesOf (readProgram tokens).1).map Reference.id).Nodup := by
  obtain ⟨high, built⟩ := readProgram_built tokens
  have apart := (numbered_of_built built []).apart
  rw [← stmtsOccurrences_reference [] (readProgram tokens).1, List.map_map]
  exact apart

end Scope
end LoxLang
