import LoxLang.Proofs.Grammar.Building.Statement
import LoxLang.Proofs.Scope.Resolution

/-! The names of a level are those that its construct declares. A level fills up while the statements
of its construct are walked; a branch of an `if` or the body of a loop adds nothing to it, because the
grammar admits no declaration there. -/
namespace LoxLang.Scope
open Grammar

/-- The level has only names that its construct declares. -/
def Level.Sited (level : Level) : Prop :=
  ∀ name, level.names.contains name → level.site.Declares name

def Sited (levels : List Level) : Prop := ∀ level ∈ levels, level.Sited

/-- What the statement declares is declared by the construct of the innermost level. -/
def Belongs (levels : List Level) (s : Stmt) : Prop :=
  ∀ level ∈ levels.head?, ∀ t, s.declared? = some t → level.site.Declares t.lexeme

variable {levels : List Level} {o : Occurrence}

mutual

theorem levels_of_mem_exprOccurrences : ∀ e, o ∈ exprOccurrences levels e → o.levels = levels
  | .literal _, member => by simp [exprOccurrences] at member
  | .grouping inner, member => levels_of_mem_exprOccurrences inner member
  | .unary _ right, member => levels_of_mem_exprOccurrences right member
  | .binary left _ right, member | .logical left _ right, member => by
    rcases List.mem_append.mp member with member | member
    · exact levels_of_mem_exprOccurrences left member
    · exact levels_of_mem_exprOccurrences right member
  | .conditional condition thenBranch elseBranch, member => by
    rcases List.mem_append.mp member with member | member
    · exact levels_of_mem_exprOccurrences condition member
    rcases List.mem_append.mp member with member | member
    · exact levels_of_mem_exprOccurrences thenBranch member
    · exact levels_of_mem_exprOccurrences elseBranch member
  | .variable _, member | .this _, member | .super _ _, member => by
    rw [List.mem_singleton.mp member]
  | .assign _ value, member => by
    rcases List.mem_append.mp member with member | member
    · exact levels_of_mem_exprOccurrences value member
    · rw [List.mem_singleton.mp member]
  | .call callee _ arguments, member => by
    rcases List.mem_append.mp member with member | member
    · exact levels_of_mem_exprOccurrences callee member
    · exact levels_of_mem_exprsOccurrences arguments member
  | .get object _, member => levels_of_mem_exprOccurrences object member
  | .set object _ value, member => by
    rcases List.mem_append.mp member with member | member
    · exact levels_of_mem_exprOccurrences value member
    · exact levels_of_mem_exprOccurrences object member

theorem levels_of_mem_exprsOccurrences : ∀ es, o ∈ exprsOccurrences levels es → o.levels = levels
  | [], member => by simp [exprsOccurrences] at member
  | e :: rest, member => by
    rcases List.mem_append.mp member with member | member
    · exact levels_of_mem_exprOccurrences e member
    · exact levels_of_mem_exprsOccurrences rest member

end

theorem levels_of_mem_clauseOccurrences (e : Option Expr) (member : o ∈ clauseOccurrences levels e) :
    o.levels = levels := by
  cases e with
  | none => simp [clauseOccurrences] at member
  | some e => exact levels_of_mem_exprOccurrences e member

theorem Sited.cons {level : Level} (first : level.Sited) (sited : Sited levels) :
    Sited (level :: levels) := by
  intro other member
  rcases List.mem_cons.mp member with rfl | member
  · exact first
  · exact sited other member

theorem Sited.markIn {name : String} (sited : Sited levels) (ready : Bool)
    (declared : ∀ level ∈ levels.head?, level.site.Declares name) :
    Sited (markIn name ready levels) := by
  cases levels with
  | nil => exact sited
  | cons level outer =>
    refine .cons ?_ fun other member => sited other (List.mem_cons_of_mem _ member)
    intro other contained
    rcases (Table.contains_set _ _ _ _).mp contained with rfl | contained
    · exact declared level rfl
    · exact sited level List.mem_cons_self other contained

theorem Sited.behind {s : Stmt} (sited : Sited levels) (belongs : Belongs levels s) :
    Sited (behind s levels) := by
  unfold Scope.behind
  split
  · exact sited
  · next declared => exact sited.markIn true fun level head => belongs level head _ declared

theorem Belongs.behind {s s' : Stmt} (belongs : Belongs levels s') :
    Belongs (Scope.behind s levels) s' := by
  cases levels with
  | nil =>
    unfold Scope.behind
    split <;> exact nofun
  | cons level outer =>
    obtain ⟨names, same⟩ := behind_tail s level outer
    rw [same]
    rintro _ ⟨⟩
    exact belongs level rfl

theorem belongs_plain {s : Stmt} (plain : s.declared? = none) : Belongs levels s := by
  intro level head t declared
  rw [plain] at declared
  cases declared

theorem sited_nil (site : Site) : Level.Sited ⟨site, []⟩ := by
  intro name contained
  cases contained

theorem sited_single {site : Site} {name : String} (declared : site.Declares name) (ready : Bool) :
    Level.Sited ⟨site, [(name, ready)]⟩ := by
  intro other contained
  by_cases same : other = name
  · exact same ▸ declared
  · simp [Table.contains, Table.get?, same] at contained

theorem contains_introduced (parameters : List Token) {names : Table Bool} {name : String}
    (contained : (parameters.foldl (fun names p => names.set p.lexeme true) names).contains name) :
    (∃ p ∈ parameters, p.lexeme = name) ∨ names.contains name := by
  induction parameters generalizing names with
  | nil => exact .inr contained
  | cons p rest ih =>
    rcases ih contained with ⟨q, member, same⟩ | earlier
    · exact .inl ⟨q, List.mem_cons_of_mem _ member, same⟩
    · rcases (Table.contains_set _ _ _ _).mp earlier with same | earlier
      · exact .inl ⟨p, List.mem_cons_self, same.symm⟩
      · exact .inr earlier

theorem parameterNames_contains {parameters : List Token} {name : String}
    (contained : (parameterNames parameters).contains name) :
    ∃ p ∈ parameters, p.lexeme = name := by
  rcases contains_introduced parameters contained with found | none
  · exact found
  · cases none

theorem classLevels_sited (sited : Sited levels) (clause : Option Reference)
    (methods : List Declaration) : Sited (classLevels clause methods levels) := by
  have declared : Site.Declares "this" (.receiver methods) := rfl
  have receiver := sited_single declared true
  cases clause with
  | none => exact .cons receiver sited
  | some r =>
    have declared' : Site.Declares "super" (.parent methods) := rfl
    exact .cons receiver (.cons (sited_single declared' true) sited)

/-- In every levels that fit around a tree, its occurrences have levels with declared names only. -/
def Settled : Tree → Prop
  | .stmt s => ∀ ⦃levels⦄, Sited levels → Belongs levels s → ∀ o ∈ stmtOccurrences levels s, Sited o.levels
  | .stmts body => ∀ ⦃levels⦄, Sited levels → (∀ s ∈ body, Belongs levels s) →
    ∀ o ∈ stmtsOccurrences levels body, Sited o.levels
  | .branch s => ∀ s' ∈ s, ∀ ⦃levels⦄, Sited levels → Belongs levels s' →
    ∀ o ∈ stmtOccurrences levels s', Sited o.levels
  | .routine d => ∀ ⦃levels⦄, Sited levels → ∀ o ∈ declarationOccurrences levels d, Sited o.levels
  | .routines ds => ∀ ⦃levels⦄, Sited levels → ∀ o ∈ methodsOccurrences levels ds, Sited o.levels
  | _ => True

theorem settled_none : Settled (.stmts []) := by
  intro levels _ _ o member
  cases member

theorem settled_more {s : Stmt} {rest : List Stmt} (one : Settled (.stmt s))
    (others : Settled (.stmts rest)) : Settled (.stmts (s :: rest)) := by
  intro levels sited belongs o member
  have first := belongs s List.mem_cons_self
  rcases List.mem_append.mp member with member | member
  · exact one sited first o member
  · exact others (sited.behind first)
      (fun s' later => (belongs s' (List.mem_cons_of_mem _ later)).behind) o member

theorem settled_expression (e : Expr) : Settled (.stmt (.expression e)) := by
  intro levels sited _ o member
  rw [levels_of_mem_exprOccurrences e member]
  exact sited

theorem settled_block {body : List Stmt} (statements : Settled (.stmts body)) :
    Settled (.stmt (.block body)) := by
  intro levels sited _ o member
  apply statements (sited.cons (sited_nil (.block body))) _ o member
  rintro s inside _ ⟨⟩ t declared
  exact ⟨s, inside, t, declared, rfl⟩

theorem settled_while {e : Expr} {s : Stmt} (body : Settled (.stmt s)) (plain : s.declared? = none) :
    Settled (.stmt (.while_ e s)) := by
  intro levels sited _ o member
  rcases List.mem_append.mp member with member | member
  · rw [levels_of_mem_exprOccurrences e member]
    exact sited
  · exact body sited (belongs_plain plain) o member

theorem settled_loopBody {s : Stmt} (body : Settled (.stmt s)) (plain : s.declared? = none)
    (step : Option Expr) :
    Settled (.stmt (loopBody s step)) ∧ (loopBody s step).declared? = none := by
  cases step with
  | none => exact ⟨body, plain⟩
  | some e => exact ⟨settled_block (settled_more body (settled_more (settled_expression e) settled_none)), rfl⟩

theorem settled_for {i : Option Stmt} {s : Stmt} (initializer : Settled (.branch i))
    (body : Settled (.stmt s)) (plain : s.declared? = none) (e step : Option Expr) :
    Settled (.stmt (forLoop i e step s)) := by
  obtain ⟨repeated, plainBody⟩ := settled_loopBody body plain step
  have loop := settled_while (e := e.getD (.literal (.boolean true))) repeated plainBody
  cases i with
  | none => exact loop
  | some s' => exact settled_block (settled_more (initializer s' rfl) (settled_more loop settled_none))

theorem settled_routine {name : Token} {parameters : List Token} {body : List Stmt}
    (statements : Settled (.stmts body)) : Settled (.routine ⟨name, parameters, body⟩) := by
  intro levels sited o member
  have listed : Level.Sited ⟨.routine ⟨name, parameters, body⟩, parameterNames parameters⟩ := by
    intro other contained
    exact .inl (parameterNames_contains contained)
  apply statements (sited.cons listed) _ o member
  rintro s inside _ ⟨⟩ t declared
  exact .inr ⟨s, inside, t, declared, rfl⟩

theorem settled_of_built {tokens : List Token} {low high : Nat} {tree : Tree}
    (built : Built tokens low tree high) : Settled tree := by
  induction built with
  | widen built below above ih => exact ih
  | expression value => exact settled_expression _
  | @print e low high value =>
    intro levels sited _ o member
    rw [levels_of_mem_exprOccurrences e member]
    exact sited
  | @var name initializer low high named value =>
    intro levels sited belongs o member
    rw [levels_of_mem_clauseOccurrences initializer member]
    exact sited.markIn false fun level head => belongs level head name rfl
  | block statements ih => exact settled_block ih
  | @if_ e s other low first second high condition thenBranch plain elseBranch others ih ih₁ ih₂ =>
    intro levels sited _ o member
    have chosen := ih₁ sited (belongs_plain plain) o
    have tested (member : o ∈ exprOccurrences levels e) : Sited o.levels := by
      rw [levels_of_mem_exprOccurrences e member]
      exact sited
    cases other with
    | none =>
      rcases List.mem_append.mp member with member | member
      · exact tested member
      · exact chosen member
    | some s' =>
      rcases List.mem_append.mp member with member | member
      · exact tested member
      rcases List.mem_append.mp member with member | member
      · exact chosen member
      · exact ih₂ s' rfl sited (belongs_plain (others s' rfl)) o member
  | while_ condition body plain ih ih' => exact settled_while ih' plain
  | for_ initializer condition increment body plain ih ih₁ ih₂ ih₃ => exact settled_for ih ih₃ plain _ _
  | function routine ih =>
    intro levels sited belongs o member
    exact ih (sited.behind belongs) o member
  | @return_ keyword value low high member returned =>
    intro levels sited _ o member
    rw [levels_of_mem_clauseOccurrences value member]
    exact sited
  | @class_ name ds low middle high clause named ordered parent methods ih =>
    intro levels sited belongs o member
    rcases List.mem_append.mp member with member | member
    · cases clause with
      | none => cases member
      | some r =>
        rw [List.mem_singleton.mp member]
        exact sited.markIn false fun level head => belongs level head name rfl
    · exact ih (classLevels_sited (sited.behind belongs) clause ds) o member
  | noStmts => exact settled_none
  | moreStmts first rest ih ih' => exact settled_more ih ih'
  | noBranch => exact nofun
  | someBranch taken ih =>
    rintro _ ⟨⟩
    exact ih
  | routine named listed statements ih => exact settled_routine ih
  | noRoutines =>
    intro levels _ o member
    cases member
  | moreRoutines first rest ih ih' =>
    intro levels sited o member
    rcases List.mem_append.mp member with member | member
    · exact ih sited o member
    · exact ih' sited o member
  | _ => trivial

/-- Around every occurrence in a program that is read, each level has only names that its construct
declares. -/
theorem occurrences_sited (source : String) :
    ∀ o ∈ occurrences (Program.read source).statements, Sited o.levels := by
  obtain ⟨high, built⟩ := readProgram_built (scan source).1
  exact settled_of_built built nofun fun s _ => nofun

end LoxLang.Scope
