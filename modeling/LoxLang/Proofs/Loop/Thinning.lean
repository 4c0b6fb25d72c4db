import LoxLang.Proofs.Loop.Direct
import LoxLang.Proofs.Renaming.Alike

/-! A tree and the same tree in fewer scopes. The scopes that are missing around the second tree declare
nothing, so its references lead to the same scopes as those of the first one, only at smaller depths. -/
namespace LoxLang
namespace Scope
open Renaming

/-- The second levels are the first ones without those that are marked, which have no names. -/
inductive Thinned : List Bool → List Level → List Level → Prop
  | top : Thinned [] [] []
  | kept {marks level level' levels levels'} (names : level'.names = level.names)
    (around : Thinned marks levels levels') : Thinned (false :: marks) (level :: levels) (level' :: levels')
  | dropped {marks site levels levels'} (around : Thinned marks levels levels') :
    Thinned (true :: marks) (⟨site, []⟩ :: levels) levels'

/-- A statement that declares something stands in a scope that is not missing. -/
def Roomy (marks : List Bool) (s : Stmt) : Prop := s.declared? = none ∨ marks.headD false = false

namespace Thinned

variable {marks : List Bool} {levels levels' : List Level}

theorem refl : ∀ levels : List Level, Thinned (levels.map fun _ => false) levels levels
  | [] => .top
  | _ :: outer => .kept rfl (refl outer)

/-- A name is found in the same level, at the depth that this one has among fewer. -/
theorem findIdx? (thinned : Thinned marks levels levels') {ρ : Comparison} (omits : ρ.omits = true)
    (name : String) : levels'.findIdx? (·.names.contains name) =
      (levels.findIdx? (·.names.contains name)).map (ρ.outward marks) := by
  induction thinned with
  | top => rfl
  | @kept marks level level' levels levels' names around ih =>
    rw [List.findIdx?_cons, List.findIdx?_cons, names]
    split
    · rw [Option.map_some, Comparison.outward_zero]
    · rw [ih, Option.map_map, Option.map_map]
      congr 1
      funext d
      exact (Comparison.outward_cons Comparison.stays_false marks d).symm
  | @dropped marks site levels levels' around ih =>
    have absent : ¬ (Table.contains ([] : Table Bool) name) := nofun
    rw [List.findIdx?_cons, if_neg absent, ih, Option.map_map]
    congr 1
    funext d
    simp [Comparison.outward, omits]

/-- A level with a name is not missing. -/
theorem unmarked (thinned : Thinned marks levels levels') {d : Nat} {level : Level}
    (there : levels[d]? = some level) (named : level.names ≠ []) : marks[d]?.getD false = false := by
  induction thinned generalizing d with
  | top => cases there
  | kept _ _ ih =>
    cases d with
    | zero => rfl
    | succ d => exact ih there
  | dropped _ ih =>
    cases d with
    | zero =>
      cases there
      exact absurd rfl named
    | succ d => exact ih there

theorem markIn (thinned : Thinned marks levels levels') (innermost : marks.headD false = false)
    (name : String) (ready : Bool) :
    Thinned marks (markIn name ready levels) (markIn name ready levels') := by
  cases thinned with
  | top => exact .top
  | kept names around => exact .kept (congrArg (·.set name ready) names) around
  | dropped _ => cases innermost

theorem behind (thinned : Thinned marks levels levels') {s : Stmt} (roomy : Roomy marks s) :
    Thinned marks (behind s levels) (behind s levels') := by
  unfold Scope.behind
  rcases roomy with plain | innermost
  · rw [plain]
    exact thinned
  · cases s.declared? with
    | none => exact thinned
    | some name => exact thinned.markIn innermost _ _

theorem methods (thinned : Thinned marks levels levels') (clause : Option Reference)
    (ds : List Declaration) : Thinned (Renaming.insideClass clause marks) (classLevels clause ds levels)
      (classLevels clause ds levels') := by
  cases clause with
  | none => exact .kept rfl thinned
  | some r => exact .kept rfl (.kept rfl thinned)

end Thinned

end Scope

namespace Comparison
open Grammar Scope Renaming

/-- Trees are relabeled, nothing is renamed, and scopes may be missing. Depths are recorded for what occurs
with all of the scopes and, under the new identities, without those that are missing. The level just inside
of what a `super` leads to is that of `this`. -/
structure Thinning (ρ : Comparison) (σ : Relabeling) (found found' : List Occurrence) : Prop where
  omits : ρ.omits = true
  unchanged : ρ.old = ρ.new
  lines : ∀ line, ρ.line line (σ.line line)
  located : ∀ o ∈ found, ρ.depths[o.id]? = o.depth?
  located' : ∀ o ∈ found', ρ.depths'[o.id + σ.ids]? = o.depth?
  received : ∀ o ∈ found, o.use = .super → ∀ d, o.depth? = some d →
    ∃ level, o.levels[d - 1]? = some level ∧ level.names ≠ []

/-- A name that nothing is renamed to. -/
abbrev Free (ρ : Comparison) (t : Token) : Prop := t.lexeme ≠ ρ.new

/-- A reference by such a name. -/
abbrev FreeReference (ρ : Comparison) (r : Reference) : Prop := ρ.Free r.name

namespace Thinning

variable {ρ : Comparison} {σ : Relabeling} {found found' : List Occurrence} {marks : List Bool}
  {marked : Bool} {levels levels' : List Level}

theorem agrees (thinning : ρ.Thinning σ found found') (t : Token) : ρ.Agrees t (σ.token t) :=
  ⟨rfl, rfl, thinning.lines t.line⟩

theorem becomes (thinning : ρ.Thinning σ found found') {t : Token} (fresh : ρ.Free t)
    (stays : ρ.Stays marked) : ρ.Becomes marked t (σ.token t) :=
  ⟨rfl, (name_of_same thinning.unchanged marked t.lexeme).symm, thinning.lines t.line, fresh, stays⟩

theorem refers (thinning : ρ.Thinning σ found found') (thinned : Thinned marks levels levels')
    {use : Use} {r : Reference} (fit : [⟨use, r, levels⟩] ⊆ found)
    (fit' : [⟨use, r, levels'⟩] ⊆ found') (fresh : ρ.Free r.name) :
    ρ.Refers marks r (σ.reference r) := by
  have recorded : ρ.depths[r.id]? = levels.findIdx? (·.names.contains r.name.lexeme) :=
    thinning.located _ (fit (List.mem_singleton_self _))
  have recorded' : ρ.depths'[(σ.reference r).id]? = levels'.findIdx? (·.names.contains r.name.lexeme) :=
    thinning.located' _ (fit' (List.mem_singleton_self _))
  have stays : ρ.leads marks r.id = false := by
    unfold leads
    rw [recorded]
    split
    · next d nearest =>
      obtain ⟨inside, declares, _⟩ := List.findIdx?_eq_some_iff_getElem.mp nearest
      apply thinned.unmarked (List.getElem?_eq_getElem inside)
      intro none
      rw [none] at declares
      cases declares
    · rfl
  refine ⟨fun whole => absurd (thinning.omits.symm.trans whole) nofun, ?_,
    thinning.becomes fresh fun _ => stays⟩
  rw [recorded', recorded, thinned.findIdx? thinning.omits]

theorem staysInside (thinning : ρ.Thinning σ found found') (thinned : Thinned marks levels levels')
    {r : Reference} (fit : [⟨.super, r, levels⟩] ⊆ found) : ρ.StaysInside marks r := by
  intro d recorded _
  have here := fit (List.mem_singleton_self _)
  obtain ⟨level, there, named⟩ :=
    thinning.received _ here rfl d ((thinning.located _ here).symm.trans recorded)
  exact thinned.unmarked there named

mutual

theorem expr (thinning : ρ.Thinning σ found found') (thinned : Thinned marks levels levels') :
    ∀ e, exprOccurrences levels e ⊆ found → exprOccurrences levels' e ⊆ found' →
    exprNames ρ.FreeReference ρ.FreeReference e → ρ.Alike marks (.expr e) (.expr (σ.expr e))
  | .literal _, _, _, _ => .literal
  | .grouping inner, fit, fit', held => .grouping (thinning.expr thinned inner fit fit' held)
  | .unary operator right, fit, fit', held =>
    .unary (thinning.agrees operator) (thinning.expr thinned right fit fit' held)
  | .binary left operator right, fit, fit', held =>
    have ⟨one, two⟩ := List.append_subset.mp fit
    have ⟨one', two'⟩ := List.append_subset.mp fit'
    .binary (thinning.agrees operator) (thinning.expr thinned left one one' held.1)
      (thinning.expr thinned right two two' held.2)
  | .logical left operator right, fit, fit', held =>
    have ⟨one, two⟩ := List.append_subset.mp fit
    have ⟨one', two'⟩ := List.append_subset.mp fit'
    .logical (thinning.agrees operator) (thinning.expr thinned left one one' held.1)
      (thinning.expr thinned right two two' held.2)
  | .conditional condition thenBranch elseBranch, fit, fit', held =>
    have ⟨test, branches⟩ := List.append_subset.mp fit
    have ⟨test', branches'⟩ := List.append_subset.mp fit'
    have ⟨one, two⟩ := List.append_subset.mp branches
    have ⟨one', two'⟩ := List.append_subset.mp branches'
    .conditional (thinning.expr thinned condition test test' held.1)
      (thinning.expr thinned thenBranch one one' held.2.1)
      (thinning.expr thinned elseBranch two two' held.2.2)
  | .variable _, fit, fit', held => .variable (thinning.refers thinned fit fit' held)
  | .assign _ value, fit, fit', held =>
    have ⟨right, target⟩ := List.append_subset.mp fit
    have ⟨right', target'⟩ := List.append_subset.mp fit'
    .assign (thinning.refers thinned target target' held.1)
      (thinning.expr thinned value right right' held.2)
  | .call callee paren arguments, fit, fit', held =>
    have ⟨one, two⟩ := List.append_subset.mp fit
    have ⟨one', two'⟩ := List.append_subset.mp fit'
    .call (thinning.lines paren.line) (thinning.expr thinned callee one one' held.1)
      (thinning.exprs thinned arguments two two' held.2)
  | .get object name, fit, fit', held =>
    .get (thinning.agrees name) (thinning.expr thinned object fit fit' held)
  | .set object name value, fit, fit', held =>
    have ⟨right, target⟩ := List.append_subset.mp fit
    have ⟨right', target'⟩ := List.append_subset.mp fit'
    .set (thinning.agrees name) (thinning.expr thinned object target target' held.1)
      (thinning.expr thinned value right right' held.2)
  | .this _, fit, fit', held => .this (thinning.refers thinned fit fit' held)
  | .super _ method, fit, fit', held =>
    .super (thinning.refers thinned fit fit' held) (thinning.staysInside thinned fit)
      (thinning.agrees method)

theorem exprs (thinning : ρ.Thinning σ found found') (thinned : Thinned marks levels levels') :
    ∀ es, exprsOccurrences levels es ⊆ found → exprsOccurrences levels' es ⊆ found' →
    exprsNames ρ.FreeReference ρ.FreeReference es → ρ.Alike marks (.exprs es) (.exprs (σ.exprs es))
  | [], _, _, _ => .noExprs
  | e :: rest, fit, fit', held =>
    have ⟨one, others⟩ := List.append_subset.mp fit
    have ⟨one', others'⟩ := List.append_subset.mp fit'
    .moreExprs (thinning.expr thinned e one one' held.1)
      (thinning.exprs thinned rest others others' held.2)

end

theorem clause (thinning : ρ.Thinning σ found found') (thinned : Thinned marks levels levels')
    (e : Option Expr) (fit : clauseOccurrences levels e ⊆ found)
    (fit' : clauseOccurrences levels' e ⊆ found')
    (held : clauseNames ρ.FreeReference ρ.FreeReference e) :
    ρ.Alike marks (.clause e) (.clause (e.map σ.expr)) := by
  cases e with
  | none => exact .noClause
  | some e => exact .someClause (thinning.expr thinned e fit fit' held)

theorem superclass (thinning : ρ.Thinning σ found found') (thinned : Thinned marks levels levels')
    (clause : Option Reference) (fit : superclassOccurrences levels clause ⊆ found)
    (fit' : superclassOccurrences levels' clause ⊆ found')
    (held : ∀ r ∈ clause, ρ.FreeReference r) :
    Option.Rel (ρ.Refers marks) clause (clause.map σ.reference) := by
  cases clause with
  | none => exact .none
  | some r => exact .some (thinning.refers thinned fit fit' (held r rfl))

theorem parameters (thinning : ρ.Thinning σ found found') {ps : List Token} (held : ∀ p ∈ ps, ρ.Free p) :
    List.Forall₂ (ρ.Becomes false) ps (ps.map σ.token) := by
  induction ps with
  | nil => exact .nil
  | cons p rest ih =>
    exact .cons (thinning.becomes (held p List.mem_cons_self) stays_false)
      (ih fun q member => held q (List.mem_cons_of_mem _ member))

/-- What a statement declares, it declares in a scope that is there. -/
theorem declared (thinning : ρ.Thinning σ found found') {s : Stmt} {t : Token}
    (roomy : Roomy marks s) (declared : s.declared? = some t)
    (fresh : ρ.Free t) : ρ.Becomes (marks.headD false) t (σ.token t) := by
  apply thinning.becomes fresh
  rcases roomy with plain | innermost
  · rw [plain] at declared
    cases declared
  · exact fun _ => innermost

mutual

theorem stmt (thinning : ρ.Thinning σ found found') : ∀ marks levels levels' s,
    Thinned marks levels levels' → Roomy marks s → stmtOccurrences levels s ⊆ found →
    stmtOccurrences levels' s ⊆ found' →
    stmtNames ρ.Free ρ.FreeReference ρ.FreeReference s → ρ.Alike marks (.stmt s) (.stmt (σ.stmt s))
  | _, _, _, .expression e, thinned, _, fit, fit', held =>
    .expression (thinning.expr thinned e fit fit' held)
  | _, _, _, .print e, thinned, _, fit, fit', held => .print (thinning.expr thinned e fit fit' held)
  | _, _, _, .var name initializer, thinned, roomy, fit, fit', held => by
    have becomes := thinning.declared roomy rfl held.1
    have innermost := roomy.resolve_left nofun
    have pending := thinned.markIn innermost name.lexeme false
    exact .var becomes (thinning.clause pending initializer fit fit' held.2)
  | _, _, _, .block body, thinned, _, fit, fit', held =>
    .block stays_false (thinning.stmts _ _ _ body (.kept rfl thinned) rfl fit fit' held)
  | _, _, _, .if_ condition thenBranch none, thinned, _, fit, fit', held =>
    have ⟨test, taken⟩ := List.append_subset.mp fit
    have ⟨test', taken'⟩ := List.append_subset.mp fit'
    .if_ (thinning.expr thinned condition test test' held.1)
      (thinning.stmt _ _ _ thenBranch thinned (.inl held.2.2) taken taken' held.2.1) held.2.2 .noBranch
  | _, _, _, .if_ condition thenBranch (some elseBranch), thinned, _, fit, fit', held =>
    have ⟨test, branches⟩ := List.append_subset.mp fit
    have ⟨test', branches'⟩ := List.append_subset.mp fit'
    have ⟨one, two⟩ := List.append_subset.mp branches
    have ⟨one', two'⟩ := List.append_subset.mp branches'
    .if_ (thinning.expr thinned condition test test' held.1)
      (thinning.stmt _ _ _ thenBranch thinned (.inl held.2.1.2) one one' held.2.1.1) held.2.1.2
      (.someBranch (thinning.stmt _ _ _ elseBranch thinned (.inl held.2.2.2) two two' held.2.2.1)
        held.2.2.2)
  | _, _, _, .while_ condition body, thinned, _, fit, fit', held =>
    have ⟨test, repeated⟩ := List.append_subset.mp fit
    have ⟨test', repeated'⟩ := List.append_subset.mp fit'
    .while_ (thinning.expr thinned condition test test' held.1)
      (thinning.stmt _ _ _ body thinned (.inl held.2.2) repeated repeated' held.2.1) held.2.2
  | _, _, _, .function ⟨name, parameters, body⟩, thinned, roomy, fit, fit', held =>
    .function (thinning.agrees name) (thinning.declared roomy rfl held.1)
      (thinning.declaration _ _ _ ⟨name, parameters, body⟩ (thinned.behind roomy) fit fit' held)
  | _, _, _, .return_ keyword value, thinned, _, fit, fit', held =>
    .return_ (thinning.agrees keyword) (thinning.clause thinned value fit fit' held)
  | _, _, _, .class_ name clause methods, thinned, roomy, fit, fit', held => by
    obtain ⟨above, inside⟩ := List.append_subset.mp fit
    obtain ⟨above', inside'⟩ := List.append_subset.mp fit'
    have pending := thinned.markIn (roomy.resolve_left nofun) name.lexeme false
    have around := (thinned.behind roomy).methods clause methods
    exact .class_ (thinning.agrees name) (thinning.declared roomy rfl held.1)
      (thinning.superclass pending clause above above' held.2.1)
      (thinning.declarations _ _ _ methods around inside inside' held.2.2)

theorem stmts (thinning : ρ.Thinning σ found found') : ∀ marks levels levels' body,
    Thinned marks levels levels' → marks.headD false = false → stmtsOccurrences levels body ⊆ found →
    stmtsOccurrences levels' body ⊆ found' →
    stmtsNames ρ.Free ρ.FreeReference ρ.FreeReference body →
    ρ.Alike marks (.stmts body) (.stmts (σ.stmts body))
  | _, _, _, [], _, _, _, _, _ => .noStmts
  | _, _, _, s :: rest, thinned, innermost, fit, fit', held =>
    have ⟨one, others⟩ := List.append_subset.mp fit
    have ⟨one', others'⟩ := List.append_subset.mp fit'
    .moreStmts (thinning.stmt _ _ _ s thinned (.inr innermost) one one' held.1)
      (thinning.stmts _ _ _ rest (thinned.behind (.inr innermost)) innermost others others' held.2)

theorem declaration (thinning : ρ.Thinning σ found found') : ∀ marks levels levels' (d : Declaration),
    Thinned marks levels levels' → declarationOccurrences levels d ⊆ found →
    declarationOccurrences levels' d ⊆ found' →
    declarationNames ρ.Free ρ.FreeReference ρ.FreeReference d →
    ρ.Alike marks (.routine d) (.routine (σ.declaration d))
  | _, _, _, ⟨name, _, body⟩, thinned, fit, fit', held =>
    .routine stays_false (thinning.agrees name) (thinning.parameters held.2.1)
      (thinning.stmts _ _ _ body (.kept rfl thinned) rfl fit fit' held.2.2)

theorem declarations (thinning : ρ.Thinning σ found found') : ∀ marks levels levels' ds,
    Thinned marks levels levels' → methodsOccurrences levels ds ⊆ found →
    methodsOccurrences levels' ds ⊆ found' →
    declarationsNames ρ.Free ρ.FreeReference ρ.FreeReference ds →
    ρ.Alike marks (.routines ds) (.routines (σ.declarations ds))
  | _, _, _, [], _, _, _, _ => .noRoutines
  | _, _, _, d :: rest, thinned, fit, fit', held =>
    have ⟨one, others⟩ := List.append_subset.mp fit
    have ⟨one', others'⟩ := List.append_subset.mp fit'
    .moreRoutines (thinning.declaration _ _ _ d thinned one one' held.1)
      (thinning.declarations _ _ _ rest thinned others others' held.2)

end

end Thinning
end Comparison
end LoxLang
