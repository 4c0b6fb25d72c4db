import LoxLang.Proofs.Renaming.Alike

/-! A program and the program with the variable of one scope renamed are alike. No other declaration
of that scope has the old name, so all that it declares under that name is renamed. -/
namespace LoxLang
namespace Renaming
open Grammar Scope

/-- In every scope inside the tree the declarations are apart. -/
def TreeApart : Tree → Prop
  | .stmt s => stmtApart s
  | .stmts body => stmtsApart body
  | .routine d => declarationApart d
  | .routines ds => declarationsApart ds
  | _ => True

variable {ρ : Renaming} {P : Token → Prop} {R Q : Reference → Prop} {marks : List Bool}
  {tree tree' : Tree}

/-- The scope of a variable declares nothing else under its name. -/
theorem keeps_of_variable {body : List Stmt} (apart : body.Pairwise Apart)
    (declared : ρ.DeclaresOld body) : ∀ s ∈ body, ρ.Keeps true s := by
  obtain ⟨name, initializer, member, named⟩ := declared
  have symmetric : Std.Symm Apart := ⟨fun s other apart t t' declared declared' same =>
    apart t' t declared' declared same.symm⟩
  intro s inside _ t declared other same
  have differs : Apart s (.var name initializer) :=
    apart.forall inside member (other name initializer)
  exact differs t name declared rfl (same.trans named.symm)

/-- So does the scope of a parameter. -/
theorem keeps_of_parameter {body : List Stmt} {p : Token} (apart : ∀ s ∈ body, ApartFrom s p)
    (named : p.lexeme = ρ.old) : ∀ s ∈ body, ρ.Keeps true s := by
  intro s inside _ t declared _ same
  exact apart s inside t declared (named.trans same.symm)

/-- Renaming a variable inside a function does not change the name of the function. -/
theorem Renames.routine_name {d d' : Declaration} (renames : ρ.Renames marks (.routine d) (.routine d')) :
    d'.name = d.name := by
  cases renames <;> rfl

/-- The old name is a name of the program. -/
theorem Renames.old_held (renames : ρ.Renames marks tree tree') (held : tree.Names P R Q) :
    ∃ t, P t ∧ t.lexeme = ρ.old := by
  have variable_held {body : List Stmt} (declared : ρ.DeclaresOld body) (held : stmtsNames P R Q body) :
      ∃ t, P t ∧ t.lexeme = ρ.old := by
    obtain ⟨name, initializer, member, named⟩ := declared
    induction body with
    | nil => cases member
    | cons s rest ih =>
      rcases List.mem_cons.mp member with rfl | later
      · exact ⟨name, held.1.1, named⟩
      · exact ih held.2 later
  induction renames with
  | block declared => exact variable_held declared held
  | routine declared =>
    rcases declared with ⟨p, member, named⟩ | declared
    · exact ⟨p, held.2.1 p member, named⟩
    · exact variable_held declared held.2.2
  | inBlock _ ih | inFunction _ ih => exact ih held
  | @inThen _ _ _ _ other _ ih =>
    cases other with
    | none => exact ih held.2.1
    | some _ => exact ih held.2.1.1
  | inElse _ ih => exact ih held.2.2.1
  | inLoop _ ih => exact ih held.2.1
  | inClass _ ih | inBody _ ih => exact ih held.2.2
  | here _ ih | hereRoutine _ ih => exact ih held.1
  | later _ ih | laterRoutine _ ih => exact ih held.2

end Renaming

namespace Comparison
open Grammar Scope Renaming

variable {ρ : Comparison} {P : Token → Prop} {R Q : Reference → Prop} {marks : List Bool}
  {tree tree' : Tree}

namespace Suits

variable (suits : ρ.Suits P R Q) (unmarked : ∀ b ∈ marks, b = false)
include suits unmarked

theorem same_expr {e : Expr} (held : exprNames R Q e) : ρ.Alike marks (.expr e) (.expr e) := by
  have alike : ρ.Alike marks (.expr e) (.expr (ρ.expr marks e)) := suits.expr e held
  rwa [expr_unmarked unmarked] at alike

theorem same_stmt {s : Stmt} (held : stmtNames P R Q s) : ρ.Alike marks (.stmt s) (.stmt s) := by
  have keeps : ρ.Keeps (marks.headD false) s := by
    rw [headD_unmarked unmarked]
    exact keeps_unmarked
  simpa only [stmt_unmarked marks unmarked] using suits.stmt marks s held keeps

theorem same_stmts {body : List Stmt} (held : stmtsNames P R Q body) :
    ρ.Alike marks (.stmts body) (.stmts body) := by
  have keeps : ∀ s ∈ body, ρ.Keeps (marks.headD false) s := by
    rw [headD_unmarked unmarked]
    exact fun _ _ => keeps_unmarked
  simpa only [stmts_unmarked marks unmarked] using suits.stmts marks body held keeps

theorem same_routine {d : Declaration} (held : declarationNames P R Q d) :
    ρ.Alike marks (.routine d) (.routine d) := by
  have keeps : ∀ s ∈ d.body, ρ.Keeps false s := fun _ _ => keeps_unmarked
  simpa only [declaration_unmarked marks unmarked] using suits.declaration false marks d held keeps

theorem same_routines {ds : List Declaration} (held : declarationsNames P R Q ds) :
    ρ.Alike marks (.routines ds) (.routines ds) := by
  simpa only [declarations_unmarked marks unmarked] using suits.declarations marks ds held

theorem same_superclass {clause : Option Reference} (held : ∀ r ∈ clause, R r) :
    Option.Rel (ρ.Refers marks) clause clause := by
  have related : Option.Rel (ρ.Refers marks) clause (ρ.superclass marks clause) :=
    suits.superclass clause held
  rwa [superclass_unmarked unmarked] at related

theorem same_name {t : Token} (held : P t) : ρ.Becomes (marks.headD false) t t := by
  rw [headD_unmarked unmarked]
  exact suits.kept held nofun

end Suits

/-- A program and the program with one variable renamed are alike. -/
theorem alike_of_renames (renames : ρ.Renames marks tree tree') (suits : ρ.Suits P R Q)
    (unmarked : ∀ b ∈ marks, b = false) (held : tree.Names P R Q) (apart : TreeApart tree) :
    ρ.Alike marks tree tree' := by
  -- the marks are those of the scopes on the way; what stands beside the way is like itself
  induction renames with
  | @block marks body declared =>
    exact .block (stays_of_whole suits.whole)
      (suits.stmts (true :: marks) body held (keeps_of_variable apart.1 declared))
  | @routine marks name parameters body declared =>
    have keeps : ∀ s ∈ body, ρ.Keeps true s := by
      rcases declared with ⟨p, member, named⟩ | declared
      · exact keeps_of_parameter (apart.1 p member) named
      · exact keeps_of_variable apart.2.1 declared
    exact suits.declaration true marks ⟨name, parameters, body⟩ held keeps
  | inBlock inner ih => exact .block stays_false (ih (cons_unmarked unmarked) held apart.2)
  | @inThen marks e s s' other inner ih =>
    cases other with
    | none =>
      exact .if_ (suits.same_expr unmarked held.1) (ih unmarked held.2.1 apart) held.2.2 .noBranch
    | some other =>
      exact .if_ (suits.same_expr unmarked held.1) (ih unmarked held.2.1.1 apart.1) held.2.1.2
        (.someBranch (suits.same_stmt unmarked held.2.2.1) held.2.2.2)
  | inElse inner ih =>
    exact .if_ (suits.same_expr unmarked held.1) (suits.same_stmt unmarked held.2.1.1) held.2.1.2
      (.someBranch (ih unmarked held.2.2.1 apart.2) held.2.2.2)
  | inLoop inner ih =>
    exact .while_ (suits.same_expr unmarked held.1) (ih unmarked held.2.1 apart) held.2.2
  | @inFunction marks d d' inner ih =>
    have same := inner.routine_name
    have named : P d.name := by
      cases d
      exact held.1
    refine .function ?_ ?_ (ih unmarked held apart)
    · rw [same]
      exact suits.same _
    · rw [same]
      exact suits.same_name unmarked named
  | @inClass marks name clause ds ds' inner ih =>
    exact .class_ (suits.same name) (suits.same_name unmarked held.1)
      (suits.same_superclass unmarked held.2.1) (ih (insideClass_unmarked clause unmarked) held.2.2 apart)
  | @inBody marks name parameters body body' inner ih =>
    have kept : List.Forall₂ (ρ.Becomes false) parameters (parameters.map (ρ.token false)) :=
      suits.parameters held.2.1
    rw [parameters_unmarked] at kept
    exact .routine stays_false (suits.same name) kept (ih (cons_unmarked unmarked) held.2.2 apart.2.2)
  | here inner ih =>
    exact .moreStmts (ih unmarked held.1 apart.1) (suits.same_stmts unmarked held.2)
  | later inner ih =>
    exact .moreStmts (suits.same_stmt unmarked held.1) (ih unmarked held.2 apart.2)
  | hereRoutine inner ih =>
    exact .moreRoutines (ih unmarked held.1 apart.1) (suits.same_routines unmarked held.2)
  | laterRoutine inner ih =>
    exact .moreRoutines (suits.same_routine unmarked held.1) (ih unmarked held.2 apart.2)

end Comparison
end LoxLang
