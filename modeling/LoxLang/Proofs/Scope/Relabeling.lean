import LoxLang.Proofs.Grammar.Relabeling.Tree
import LoxLang.Proofs.Scope.Place

/-! Static validity depends neither on the lines of tokens nor on the identities of references: the
places of a relabeled program are its places, relabeled, and what is asked of a place compares the texts
of names only. -/
namespace LoxLang.Relabeling
open Scope

variable (σ : Relabeling)

def encloser : Encloser → Encloser
  | .block => .block
  | .function => .function
  | .method name clause => .method (σ.token name) (clause.map σ.reference)

def place (p : Place) : Place := ⟨p.path.map σ.encloser, σ.stmt p.stmt⟩

section Parts

mutual

theorem parts_relabeled : ∀ e : Expr, (σ.expr e).parts = e.parts.map σ.expr
  | .literal _ => rfl
  | .grouping inner => by simp [expr, Expr.parts, parts_relabeled inner]
  | .unary _ right => by simp [expr, Expr.parts, parts_relabeled right]
  | .binary left _ right => by simp [expr, Expr.parts, parts_relabeled left, parts_relabeled right]
  | .logical left _ right => by simp [expr, Expr.parts, parts_relabeled left, parts_relabeled right]
  | .conditional condition thenBranch elseBranch => by
    simp [expr, Expr.parts, parts_relabeled condition, parts_relabeled thenBranch,
      parts_relabeled elseBranch]
  | .variable _ => rfl
  | .assign _ value => by simp [expr, Expr.parts, parts_relabeled value]
  | .call callee _ arguments => by
    simp [expr, Expr.parts, parts_relabeled callee, partsOf_relabeled arguments]
  | .get object _ => by simp [expr, Expr.parts, parts_relabeled object]
  | .set object _ value => by
    simp [expr, Expr.parts, parts_relabeled value, parts_relabeled object]
  | .this _ => rfl
  | .super _ _ => rfl

theorem partsOf_relabeled : ∀ es : List Expr,
    Expr.partsOf (σ.exprs es) = (Expr.partsOf es).map σ.expr
  | [] => rfl
  | e :: rest => by simp [exprs, Expr.partsOf, parts_relabeled e, partsOf_relabeled rest]

end

theorem operands_relabeled (s : Stmt) : (σ.stmt s).operands = s.operands.map σ.expr := by
  cases s with
  | var _ e | return_ _ e => cases e <;> rfl
  | if_ _ _ other => cases other <;> rfl
  | _ => rfl

theorem declarations_eq_map (ds : List Declaration) : σ.declarations ds = ds.map σ.declaration := by
  induction ds with
  | nil => rfl
  | cons d rest ih => rw [declarations, ih, List.map_cons]

theorem stmt_declarations_relabeled : ∀ s : Stmt,
    (σ.stmt s).declarations = s.declarations.map σ.token
  | .var _ _ | .expression _ | .print _ | .block _ | .return_ _ _ => rfl
  | .function ⟨_, _, _⟩ => rfl
  | .class_ _ _ _ => rfl
  | .if_ _ thenBranch none => by
    simp [stmt, Stmt.declarations, stmt_declarations_relabeled thenBranch]
  | .if_ _ thenBranch (some elseBranch) => by
    simp [stmt, Stmt.declarations, stmt_declarations_relabeled thenBranch,
      stmt_declarations_relabeled elseBranch]
  | .while_ _ body => by simp [stmt, Stmt.declarations, stmt_declarations_relabeled body]

theorem body_declarations_relabeled (body : List Stmt) :
    (σ.stmts body).flatMap Stmt.declarations = (body.flatMap Stmt.declarations).map σ.token := by
  induction body with
  | nil => rfl
  | cons s rest ih => simp [stmts, stmt_declarations_relabeled, ih]

theorem declaration_declarations_relabeled (d : Declaration) :
    (σ.declaration d).declarations = d.declarations.map σ.token := by
  obtain ⟨name, parameters, body⟩ := d
  simp [declaration, Declaration.declarations, body_declarations_relabeled]

theorem opened_relabeled (s : Stmt) : (σ.stmt s).opened = s.opened.map (List.map σ.token) := by
  cases s with
  | block body => simp [stmt, Stmt.opened, body_declarations_relabeled]
  | function d => simp [stmt, Stmt.opened, declaration_declarations_relabeled]
  | class_ name clause methods =>
    simp [stmt, Stmt.opened, declarations_eq_map, declaration_declarations_relabeled]
  | if_ _ _ other => cases other <;> rfl
  | _ => rfl

end Parts

section Places

mutual

theorem stmtPlaces_relabeled : ∀ (path : List Encloser) (s : Stmt),
    stmtPlaces (path.map σ.encloser) (σ.stmt s) = (stmtPlaces path s).map σ.place
  | _, .expression _ | _, .print _ | _, .var _ _ | _, .return_ _ _ => rfl
  | path, .block body => by
    have inner := stmtsPlaces_relabeled (.block :: path) body
    simpa [stmt, stmtPlaces, place, encloser] using inner
  | path, .if_ condition thenBranch none => by
    simp [stmt, stmtPlaces, place, stmtPlaces_relabeled path thenBranch]
  | path, .if_ condition thenBranch (some elseBranch) => by
    simp [stmt, stmtPlaces, place, stmtPlaces_relabeled path thenBranch,
      stmtPlaces_relabeled path elseBranch]
  | path, .while_ condition body => by
    simp [stmt, stmtPlaces, place, stmtPlaces_relabeled path body]
  | path, .function ⟨name, parameters, body⟩ => by
    have inner := stmtsPlaces_relabeled (.function :: path) body
    simpa [stmt, declaration, stmtPlaces, place, encloser] using inner
  | path, .class_ name clause methods => by
    simp [stmt, stmtPlaces, place, methodsPlaces_relabeled path clause methods]

theorem stmtsPlaces_relabeled : ∀ (path : List Encloser) (body : List Stmt),
    stmtsPlaces (path.map σ.encloser) (σ.stmts body) = (stmtsPlaces path body).map σ.place
  | _, [] => rfl
  | path, s :: rest => by
    simp [stmts, stmtsPlaces, stmtPlaces_relabeled path s, stmtsPlaces_relabeled path rest]

theorem methodsPlaces_relabeled : ∀ (path : List Encloser) (clause : Option Reference)
    (ds : List Declaration),
    methodsPlaces (path.map σ.encloser) (clause.map σ.reference) (σ.declarations ds) =
      (methodsPlaces path clause ds).map σ.place
  | _, _, [] => rfl
  | path, clause, ⟨name, _, body⟩ :: rest => by
    have inner := stmtsPlaces_relabeled (.method name clause :: path) body
    rw [List.map_cons] at inner
    simp only [declarations, declaration, methodsPlaces, List.map_append,
      methodsPlaces_relabeled path clause rest]
    rw [← inner]
    rfl

end

end Places

section Validity

variable {σ}

/-- What kind of construct encloses a place. -/
theorem find?_encloser {p : Encloser → Bool} (same : ∀ e, p (σ.encloser e) = p e)
    (path : List Encloser) : (path.map σ.encloser).find? p = (path.find? p).map σ.encloser := by
  rw [List.find?_map]
  congr 2
  exact funext same

theorem isRoutine_relabeled (e : Encloser) : (σ.encloser e).isRoutine = e.isRoutine := by
  cases e <;> rfl

theorem isMethod_relabeled (e : Encloser) : (σ.encloser e).isMethod = e.isMethod := by
  cases e <;> rfl

theorem isInitializer_relabeled (e : Encloser) : (σ.encloser e).isInitializer = e.isInitializer := by
  cases e <;> rfl

theorem inherits_relabeled (e : Encloser) : (σ.encloser e).inherits = e.inherits := by
  cases e with
  | method name clause => cases clause <;> rfl
  | _ => rfl

theorem eq_variable {e : Expr} {r : Reference} (same : σ.expr e = .variable r) :
    ∃ r', e = .variable r' ∧ r = σ.reference r' := by
  cases e <;> cases same
  exact ⟨_, rfl, rfl⟩

theorem eq_this {e : Expr} {r : Reference} (same : σ.expr e = .this r) : ∃ r', e = .this r' := by
  cases e <;> cases same
  exact ⟨_, rfl⟩

theorem eq_super {e : Expr} {r : Reference} {name : Token} (same : σ.expr e = .super r name) :
    ∃ r' name', e = .super r' name' := by
  cases e <;> cases same
  exact ⟨_, _, rfl⟩

theorem eq_var {s : Stmt} {name : Token} {e : Option Expr} (same : σ.stmt s = .var name e) :
    ∃ name' e', s = .var name' e' ∧ name = σ.token name' ∧ e = e'.map σ.expr := by
  cases s with
  | var name' e' =>
    cases same
    exact ⟨name', e', rfl, rfl, rfl⟩
  | if_ _ _ other => cases other <;> cases same
  | _ => cases same

theorem eq_return {s : Stmt} {keyword : Token} {e : Option Expr} (same : σ.stmt s = .return_ keyword e) :
    ∃ keyword' e', s = .return_ keyword' e' ∧ e = e'.map σ.expr := by
  cases s with
  | return_ keyword' e' =>
    cases same
    exact ⟨keyword', e', rfl, rfl⟩
  | if_ _ _ other => cases other <;> cases same
  | _ => cases same

theorem eq_class {s : Stmt} {name : Token} {clause : Option Reference} {methods : List Declaration}
    (same : σ.stmt s = .class_ name clause methods) :
    ∃ name' clause' methods', s = .class_ name' clause' methods' ∧ name = σ.token name' ∧
      clause = clause'.map σ.reference := by
  cases s with
  | class_ name' clause' methods' =>
    cases same
    exact ⟨name', clause', methods', rfl, rfl, rfl⟩
  | if_ _ _ other => cases other <;> cases same
  | _ => cases same

/-- A relabeled place satisfies what the place satisfies. -/
theorem place_valid {p : Place} (valid : p.Valid) : (σ.place p).Valid where
  declaredOnce names member := by
    rw [place, opened_relabeled] at member
    obtain ⟨names', member', rfl⟩ := List.mem_map.mp member
    rw [List.map_map]
    exact valid.declaredOnce names' member'
  initialized name e same inside r member := by
    obtain ⟨name', e', same', rfl, initializer⟩ := eq_var same
    obtain ⟨e', rfl, rfl⟩ := Option.map_eq_some_iff.mp initializer.symm
    rw [parts_relabeled] at member
    obtain ⟨part, member', read⟩ := List.mem_map.mp member
    obtain ⟨r', rfl, rfl⟩ := eq_variable read
    exact valid.initialized name' e' same' (fun top => inside (by simp [place, top])) r' member'
  returned keyword value same := by
    obtain ⟨keyword', value', same', rfl⟩ := eq_return same
    obtain ⟨routine, found, plain⟩ := valid.returned keyword' value' same'
    refine ⟨σ.encloser routine, ?_, fun given => ?_⟩
    · rw [place, find?_encloser isRoutine_relabeled, found, Option.map_some]
    · rw [isInitializer_relabeled]
      exact plain (by simpa using given)
  received e member r part := by
    rw [place, operands_relabeled] at member
    obtain ⟨e', member', rfl⟩ := List.mem_map.mp member
    rw [parts_relabeled] at part
    obtain ⟨part', inside, same⟩ := List.mem_map.mp part
    obtain ⟨r', rfl⟩ := eq_this same
    obtain ⟨method, around, found⟩ := valid.received e' member' r' inside
    exact ⟨σ.encloser method, List.mem_map_of_mem around, by rwa [isMethod_relabeled]⟩
  inherited e member r name part := by
    rw [place, operands_relabeled] at member
    obtain ⟨e', member', rfl⟩ := List.mem_map.mp member
    rw [parts_relabeled] at part
    obtain ⟨part', inside, same⟩ := List.mem_map.mp part
    obtain ⟨r', name', rfl⟩ := eq_super same
    obtain ⟨method, found, inherits⟩ := valid.inherited e' member' r' name' inside
    refine ⟨σ.encloser method, ?_, by rwa [inherits_relabeled]⟩
    rw [place, find?_encloser isMethod_relabeled, found, Option.map_some]
  derived name r methods same := by
    obtain ⟨name', clause, methods', same', rfl, parent⟩ := eq_class same
    obtain ⟨r', rfl, rfl⟩ := Option.map_eq_some_iff.mp parent.symm
    exact valid.derived name' r' methods' same'

/-- Two valid programs, the second one relabeled, are valid one after the other. -/
theorem valid_append {program program' : List Stmt} (valid : Valid program) (valid' : Valid program') :
    Valid (program ++ σ.stmts program') := by
  have places (body more : List Stmt) :
      stmtsPlaces [] (body ++ more) = stmtsPlaces [] body ++ stmtsPlaces [] more := by
    induction body with
    | nil => rfl
    | cons s rest ih => rw [List.cons_append, stmtsPlaces, stmtsPlaces, ih, List.append_assoc]
  intro p member
  rw [places] at member
  rcases List.mem_append.mp member with first | second
  · exact valid p first
  · have relabeled : stmtsPlaces [] (σ.stmts program') = (stmtsPlaces [] program').map σ.place :=
      stmtsPlaces_relabeled σ [] program'
    rw [relabeled] at second
    obtain ⟨p', member', rfl⟩ := List.mem_map.mp second
    exact place_valid (valid' p' member')

end Validity

end LoxLang.Relabeling
