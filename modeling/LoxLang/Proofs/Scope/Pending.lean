import LoxLang.Proofs.Scope.Declared

/-! Scopes in which a name is declared but not ready. Of the levels around an occurrence only the
innermost can have such a name, while the initializer of that variable is being read: no expression
opens a level, so whatever stands further in stands behind the whole declaration. -/
namespace LoxLang.Scope

/-- The occurrence stands in the initializer of the variable that it names. -/
def Occurrence.Pending (o : Occurrence) : Prop :=
  ∃ level ∈ o.levels.head?, level.names.get? o.name = some false

variable {levels : List Level} {o : Occurrence}

theorem Ready.tail (ready : Ready levels) : Ready levels.tail :=
  fun level member => ready level (List.mem_of_mem_tail member)

/-- Marking a name as pending leaves the outer levels alone. -/
theorem Ready.markIn_tail (ready : Ready levels) (name : String) (b : Bool) :
    Ready (Scope.markIn name b levels).tail := by
  cases levels with
  | nil => exact ready
  | cons level outer => exact ready.tail

theorem outer_of_mem_exprOccurrences (outer : Ready levels.tail) {e : Expr}
    (member : o ∈ exprOccurrences levels e) : Ready o.levels.tail := by
  rw [levels_of_mem_exprOccurrences e member]
  exact outer

theorem outer_of_mem_clauseOccurrences (outer : Ready levels.tail) {e : Option Expr}
    (member : o ∈ clauseOccurrences levels e) : Ready o.levels.tail := by
  rw [levels_of_mem_clauseOccurrences e member]
  exact outer

mutual

theorem outer_of_mem_stmtOccurrences : ∀ levels s, Ready levels → o ∈ stmtOccurrences levels s →
    Ready o.levels.tail
  | _, .expression _, ready, member | _, .print _, ready, member =>
    outer_of_mem_exprOccurrences ready.tail member
  | _, .var name _, ready, member =>
    outer_of_mem_clauseOccurrences (ready.markIn_tail name.lexeme false) member
  | levels, .block body, ready, member =>
    outer_of_mem_stmtsOccurrences (⟨.block body, []⟩ :: levels) body (opened_ready ready _) member
  | levels, .if_ _ thenBranch none, ready, member => by
    rcases List.mem_append.mp member with member | member
    · exact outer_of_mem_exprOccurrences ready.tail member
    · exact outer_of_mem_stmtOccurrences levels thenBranch ready member
  | levels, .if_ _ thenBranch (some elseBranch), ready, member => by
    rcases List.mem_append.mp member with member | member
    · exact outer_of_mem_exprOccurrences ready.tail member
    rcases List.mem_append.mp member with member | member
    · exact outer_of_mem_stmtOccurrences levels thenBranch ready member
    · exact outer_of_mem_stmtOccurrences levels elseBranch ready member
  | levels, .while_ _ body, ready, member => by
    rcases List.mem_append.mp member with member | member
    · exact outer_of_mem_exprOccurrences ready.tail member
    · exact outer_of_mem_stmtOccurrences levels body ready member
  | _, .function d, ready, member =>
    outer_of_mem_declarationOccurrences _ d (ready.behind (.function d)) member
  | _, .return_ _ _, ready, member => outer_of_mem_clauseOccurrences ready.tail member
  | _, .class_ name clause methods, ready, member => by
    rcases List.mem_append.mp member with member | member
    · cases clause with
      | none => cases member
      | some r =>
        rw [List.mem_singleton.mp member]
        exact ready.markIn_tail name.lexeme false
    · have behind := ready.behind (.class_ name clause methods)
      exact outer_of_mem_methodsOccurrences _ methods (classLevels_ready behind clause methods) member

theorem outer_of_mem_stmtsOccurrences : ∀ levels body, Ready levels → o ∈ stmtsOccurrences levels body →
    Ready o.levels.tail
  | _, [], _, member => by cases member
  | levels, s :: rest, ready, member => by
    rcases List.mem_append.mp member with member | member
    · exact outer_of_mem_stmtOccurrences levels s ready member
    · exact outer_of_mem_stmtsOccurrences (behind s levels) rest (ready.behind s) member

theorem outer_of_mem_declarationOccurrences : ∀ levels d, Ready levels →
    o ∈ declarationOccurrences levels d → Ready o.levels.tail
  | levels, ⟨name, parameters, body⟩, ready, member => by
    have listed := parameterNames_ready parameters (.routine ⟨name, parameters, body⟩)
    exact outer_of_mem_stmtsOccurrences _ body (ready.cons listed) member

theorem outer_of_mem_methodsOccurrences : ∀ levels ds, Ready levels → o ∈ methodsOccurrences levels ds →
    Ready o.levels.tail
  | _, [], _, member => by cases member
  | levels, d :: rest, ready, member => by
    rcases List.mem_append.mp member with member | member
    · exact outer_of_mem_declarationOccurrences levels d ready member
    · exact outer_of_mem_methodsOccurrences levels rest ready member

end

/-- Outside of the initializer of the variable itself, a name is ready in the level in which it is
found. -/
theorem ready_of_settled {program : List Stmt} (member : o ∈ occurrences program)
    (settled : ¬ o.Pending) {d : Nat} (found : o.depth? = some d) :
    ∃ level, o.levels[d]? = some level ∧ level.names.get? o.name = some true := by
  have outer := outer_of_mem_stmtsOccurrences [] program nofun member
  obtain ⟨bound, contained, _⟩ := List.findIdx?_eq_some_iff_getElem.mp found
  have there := List.getElem?_eq_getElem bound
  refine ⟨o.levels[d], there, ?_⟩
  obtain ⟨b, got⟩ := Option.isSome_iff_exists.mp contained
  cases b with
  | true => exact got
  | false =>
    cases d with
    | zero =>
      have head : o.levels[0] ∈ o.levels.head? := by
        rw [List.head?_eq_getElem?, there]
        rfl
      exact absurd ⟨_, head, got⟩ settled
    | succ d =>
      have member : o.levels[d + 1] ∈ o.levels.tail := by
        apply List.mem_of_getElem?
        rw [List.getElem?_tail]
        exact there
      cases outer _ member _ _ got

end LoxLang.Scope
