import LoxLang.Proofs.Grammar.Names
import LoxLang.Proofs.Scope.Occurrence

/-! Every reference in a tree is one of the occurrences in it, so what holds of all occurrences holds of
all references, at whatever levels the tree stands. -/
namespace LoxLang.Scope
open Grammar

variable {P : Token → Prop} {R Q D : Reference → Prop}

/-- It holds of the references of all these occurrences. -/
def Throughout (D : Reference → Prop) (found : List Occurrence) : Prop :=
  ∀ o ∈ found, D o.reference

theorem Throughout.append {found more : List Occurrence} (holds : Throughout D (found ++ more)) :
    Throughout D found ∧ Throughout D more := List.forall_mem_append.mp holds

theorem Throughout.single {use : Use} {r : Reference} {levels : List Level}
    (holds : Throughout D [⟨use, r, levels⟩]) : D r := holds _ List.mem_cons_self

mutual

theorem exprNames_of_throughout (levels : List Level) : ∀ e, exprNames R Q e →
    Throughout D (exprOccurrences levels e) → exprNames (fun r => R r ∧ D r) (fun r => Q r ∧ D r) e
  | .literal _, _, _ => trivial
  | .grouping inner, held, holds => exprNames_of_throughout levels inner held holds
  | .unary _ right, held, holds => exprNames_of_throughout levels right held holds
  | .binary left _ right, held, holds | .logical left _ right, held, holds =>
    ⟨exprNames_of_throughout levels left held.1 holds.append.1,
      exprNames_of_throughout levels right held.2 holds.append.2⟩
  | .conditional condition thenBranch elseBranch, held, holds =>
    ⟨exprNames_of_throughout levels condition held.1 holds.append.1,
      exprNames_of_throughout levels thenBranch held.2.1 holds.append.2.append.1,
      exprNames_of_throughout levels elseBranch held.2.2 holds.append.2.append.2⟩
  | .variable _, held, holds => ⟨held, holds.single⟩
  | .assign _ value, held, holds =>
    ⟨⟨held.1, holds.append.2.single⟩,
      exprNames_of_throughout levels value held.2 holds.append.1⟩
  | .call callee _ arguments, held, holds =>
    ⟨exprNames_of_throughout levels callee held.1 holds.append.1,
      exprsNames_of_throughout levels arguments held.2 holds.append.2⟩
  | .get object _, held, holds => exprNames_of_throughout levels object held holds
  | .set object _ value, held, holds =>
    ⟨exprNames_of_throughout levels object held.1 holds.append.2,
      exprNames_of_throughout levels value held.2 holds.append.1⟩
  | .this _, held, holds => ⟨held, holds.single⟩
  | .super _ _, held, holds => ⟨held, holds.single⟩

theorem exprsNames_of_throughout (levels : List Level) : ∀ es, exprsNames R Q es →
    Throughout D (exprsOccurrences levels es) →
    exprsNames (fun r => R r ∧ D r) (fun r => Q r ∧ D r) es
  | [], _, _ => trivial
  | e :: rest, held, holds =>
    ⟨exprNames_of_throughout levels e held.1 holds.append.1,
      exprsNames_of_throughout levels rest held.2 holds.append.2⟩

end

theorem clauseNames_of_throughout (levels : List Level) (e : Option Expr) (held : clauseNames R Q e)
    (holds : Throughout D (clauseOccurrences levels e)) :
    clauseNames (fun r => R r ∧ D r) (fun r => Q r ∧ D r) e := by
  cases e with
  | none => trivial
  | some e => exact exprNames_of_throughout levels e held holds

theorem superclassNames_of_throughout (levels : List Level) (clause : Option Reference)
    (held : ∀ r ∈ clause, R r) (holds : Throughout D (superclassOccurrences levels clause)) :
    ∀ r ∈ clause, R r ∧ D r := by
  rintro r ⟨⟩
  exact ⟨held r rfl, holds.single⟩

mutual

theorem stmtNames_of_throughout : ∀ (levels : List Level) s, stmtNames P R Q s →
    Throughout D (stmtOccurrences levels s) →
    stmtNames P (fun r => R r ∧ D r) (fun r => Q r ∧ D r) s
  | levels, .expression e, held, holds | levels, .print e, held, holds =>
    exprNames_of_throughout levels e held holds
  | _, .var _ initializer, held, holds =>
    ⟨held.1, clauseNames_of_throughout _ initializer held.2 holds⟩
  | _, .block body, held, holds => stmtsNames_of_throughout _ body held holds
  | levels, .if_ condition thenBranch none, held, holds =>
    ⟨exprNames_of_throughout levels condition held.1 holds.append.1,
      stmtNames_of_throughout levels thenBranch held.2.1 holds.append.2, held.2.2⟩
  | levels, .if_ condition thenBranch (some elseBranch), held, holds =>
    ⟨exprNames_of_throughout levels condition held.1 holds.append.1,
      ⟨stmtNames_of_throughout levels thenBranch held.2.1.1 holds.append.2.append.1, held.2.1.2⟩,
      stmtNames_of_throughout levels elseBranch held.2.2.1 holds.append.2.append.2, held.2.2.2⟩
  | levels, .while_ condition body, held, holds =>
    ⟨exprNames_of_throughout levels condition held.1 holds.append.1,
      stmtNames_of_throughout levels body held.2.1 holds.append.2, held.2.2⟩
  | _, .function d, held, holds => declarationNames_of_throughout _ d held holds
  | levels, .return_ _ value, held, holds => clauseNames_of_throughout levels value held holds
  | _, .class_ _ clause methods, held, holds =>
    ⟨held.1, superclassNames_of_throughout _ clause held.2.1 holds.append.1,
      declarationsNames_of_throughout _ methods held.2.2 holds.append.2⟩

theorem stmtsNames_of_throughout : ∀ (levels : List Level) body, stmtsNames P R Q body →
    Throughout D (stmtsOccurrences levels body) →
    stmtsNames P (fun r => R r ∧ D r) (fun r => Q r ∧ D r) body
  | _, [], _, _ => trivial
  | levels, s :: rest, held, holds =>
    ⟨stmtNames_of_throughout levels s held.1 holds.append.1,
      stmtsNames_of_throughout _ rest held.2 holds.append.2⟩

theorem declarationNames_of_throughout : ∀ (levels : List Level) d, declarationNames P R Q d →
    Throughout D (declarationOccurrences levels d) →
    declarationNames P (fun r => R r ∧ D r) (fun r => Q r ∧ D r) d
  | _, ⟨_, _, body⟩, held, holds =>
    ⟨held.1, held.2.1, stmtsNames_of_throughout _ body held.2.2 holds⟩

theorem declarationsNames_of_throughout : ∀ (levels : List Level) ds, declarationsNames P R Q ds →
    Throughout D (methodsOccurrences levels ds) →
    declarationsNames P (fun r => R r ∧ D r) (fun r => Q r ∧ D r) ds
  | _, [], _, _ => trivial
  | levels, d :: rest, held, holds =>
    ⟨declarationNames_of_throughout levels d held.1 holds.append.1,
      declarationsNames_of_throughout levels rest held.2 holds.append.2⟩

end

end LoxLang.Scope
