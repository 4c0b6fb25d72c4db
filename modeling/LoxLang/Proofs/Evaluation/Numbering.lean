import Mathlib
import LoxLang.Proofs.Evaluation.Located
import LoxLang.Proofs.Scope.Midst

/-! The identities of references. No two references of a program that is read share one, so the walk over
scopes comes to locate each of them at most once, and a run finds for a reference the depth that the walk
computed when it came to that reference. -/
namespace LoxLang.Eval
open Grammar Scope

/-- Each reference of a program that is read is located once, and a run finds the depth from there. -/
theorem each_reference_located_once (tokens : List Token) (fuel : Nat) (out : Sink) (clock : Nat → Float) :
    let program := (readProgram tokens).1
    let run : Run := ⟨fuel, program, .start (resolve program).1 out clock⟩
    ((Stmt.referencesOf program).map Reference.id).Nodup ∧
      (∀ r s, Visited program ⟨.locate r, s⟩ →
        r ∈ Stmt.referencesOf program ∧ s.depths[r.id]? = none ∧
        (∀ r' s', Visited program ⟨.locate r', s'⟩ → r'.id = r.id → r' = r ∧ s' = s) ∧
        ∀ moment, run.Reaches moment →
          moment.machine.depths[r.id]? = s.scopes.findIdx? (·.contains r.name.lexeme)) ∧
      (∀ id d, (resolve program).1[id]? = some d → ∃ r s, Visited program ⟨.locate r, s⟩ ∧ r.id = id) ∧
      ((resolve program).2 = [] →
        ∀ r ∈ Stmt.referencesOf program, ∃ s, Visited program ⟨.locate r, s⟩) := by
  intro program run
  have apart : ((Stmt.referencesOf program).map Reference.id).Nodup := references_nodup tokens
  refine ⟨apart, ?_, fun _ _ => visited_of_recorded, fun faultless _ => visited_of_faultless faultless⟩
  intro r s visited
  refine ⟨visited.listed, visited.unrecorded apart, fun _ _ => visited.unique apart, ?_⟩
  intro moment reached
  rw [reached.depths]
  exact visited.recorded apart

/-- The variable in the condition of a loop is located once, in the scope around the loop. -/
theorem loop_variable_located_once :
    let tokens : List Token := [⟨.keyword .for_, "for", 1⟩, ⟨.symbol .leftParen, "(", 1⟩,
      ⟨.keyword .var_, "var", 1⟩, ⟨.identifier, "i", 1⟩, ⟨.symbol .semicolon, ";", 1⟩,
      ⟨.identifier, "i", 1⟩, ⟨.symbol .semicolon, ";", 1⟩, ⟨.symbol .rightParen, ")", 1⟩,
      ⟨.identifier, "i", 1⟩, ⟨.symbol .semicolon, ";", 1⟩, ⟨.endOfFile, "", 1⟩]
    let program := (readProgram tokens).1
    let run : Run := ⟨4, program, .start (resolve program).1 (.ofCapacity none) fun _ => 0⟩
    ∃ r s, Visited program ⟨.locate r, s⟩ ∧
      (∀ r' s', Visited program ⟨.locate r', s'⟩ → r'.id = r.id → r' = r ∧ s' = s) ∧
      ∃ moment, run.Reaches moment ∧ moment.machine.depths[r.id]? = some 0 := by
  intro tokens
  let i : Token := ⟨.identifier, "i", 1⟩
  let loop : Stmt := .while_ (.variable ⟨0, i⟩) (.expression (.variable ⟨1, i⟩))
  let block : Stmt := .block [.var i none, loop]
  let inside : State := ⟨[[("i", true)]], ∅, []⟩
  have located := (each_reference_located_once tokens 4 (.ofCapacity none) fun _ => 0).2.1
  have parsed : readProgram tokens = ([block], []) := by cbv
  rw [parsed] at located ⊢
  intro program run
  have declared : walkStmt .top (.var i none) State.start.opened = .ok () inside := rfl
  have free : inside.scopes.head?.bind (·.get? i.lexeme) ≠ some false := by decide
  have visited : Visited program ⟨.locate ⟨0, i⟩, inside⟩ :=
    ((((((Relation.ReflTransGen.single .firstStatement).tail .block).tail (.laterStatements declared)).tail
      .firstStatement).tail .round).tail .variable).tail (.allowed free)
  have here : run.program = [] ++ block :: [] := rfl
  have reached : run.Reaches ⟨4, .execute block, run.first⟩ := .start (.statement here rfl)
  obtain ⟨_, _, once, found⟩ := located _ _ visited
  exact ⟨_, _, visited, once, _, reached, found _ reached⟩

end LoxLang.Eval
