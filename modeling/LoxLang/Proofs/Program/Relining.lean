import LoxLang.Proofs.Grammar.Join
import LoxLang.Proofs.Program.Outcome
import LoxLang.Proofs.Renaming.Invariance
import LoxLang.Proofs.Renaming.Relining

/-! Programs on other lines. Lines are carried along and never made up: tokens that are put on other
lines are read as the program on those lines, its scopes are resolved as before, and a run of it prints
the same and ends in the same way. Whatever is reported on the way names the other line instead of the
old one. -/
namespace LoxLang
open Grammar Scope Eval

namespace Relabeling

variable (σ : Relabeling)

def diagnostic : Diagnostic → Diagnostic
  | .lexical e => .lexical (e.relined σ.line)
  | .grammar e => .grammar (σ.fault e)
  | .scope e => .scope (σ.scopeFault e)
  | .runtime e => .runtime { e with line := σ.line e.line }

theorem diagnostic_line (d : Diagnostic) : (σ.diagnostic d).line = σ.line d.line := by
  cases d <;> rfl

def program (program : Program) : Program where
  statements := σ.stmts program.statements
  faults := program.faults.map σ.diagnostic

def verdict (v : Verdict) : Verdict := { v with diagnostics := v.diagnostics.map σ.diagnostic }

variable {σ}

/-- The tokens of a text, on other lines, are read as the program on those lines. -/
theorem readProgram_relined (kept : σ.ids = 0) (source : String) :
    readProgram ((scan source).1.map σ.token) =
      (σ.stmts (readProgram (scan source).1).1, (readProgram (scan source).1).2.map σ.fault) := by
  obtain ⟨own, tokens, single⟩ := scan_end source
  have apart (t : Token) (member : t ∈ own) : t.kind ≠ .endOfFile := (single t member).1
  have apart' : ∀ t ∈ own.map σ.token, t.kind ≠ .endOfFile := by
    intro t member
    obtain ⟨t', among, rfl⟩ := List.mem_map.mp member
    exact apart t' among
  have start : Cursor.start ((scan source).1.map σ.token) = σ.cursor (.start (scan source).1) := by
    rw [tokens, List.map_append, List.map_singleton, start_concat rfl apart, start_concat rfl apart']
    simp only [cursor, kept]
    rfl
  have same : budget ((scan source).1.map σ.token) = budget (scan source).1 := by
    simp only [budget, List.length_map]
  unfold readProgram
  rw [start, same, program_relabeled (budget (scan source).1) (.start (scan source).1)]
  rcases Grammar.program (budget (scan source).1) (.start (scan source).1) with ⟨_, _⟩ | ⟨_ | _, _⟩
  · rfl
  · simp only [result, failure, cursor, List.map_append, List.map_singleton]
    rfl
  · rfl

/-- An accepted program on other lines prints the same and ends in the same way; the fault that stops
it has the same cause, on the other line. -/
theorem interpret_relined (kept : σ.ids = 0) (source : String) {depths : Depths} (fuel : Nat)
    (clock : Nat → Float) (out : Sink) :
    Verdict.ofResult (interpret fuel (σ.stmts (Program.read source).statements)
        (.start depths out clock)) =
      σ.verdict (.ofResult (interpret fuel (Program.read source).statements
        (.start depths out clock))) := by
  let ρ : Comparison := ⟨⟨depths, "", ""⟩, depths, fun line line' => line' = σ.line line,
    false⟩
  have relining : ρ.Relining σ := ⟨rfl, rfl, fun _ => rfl, kept⟩
  have alike := relining.stmts (Comparison.named_of_empty rfl rfl rfl source) [] _
    (Comparison.names_of_read fun _ _ => rfl)
  rcases (Comparison.interpret_matches (Comparison.unreserved_of_empty rfl rfl) fuel alike _ _
      (Comparison.start_alike out clock)).ends with
    ⟨_, after, _, after', ended, ended', _, _, machines, _⟩ |
    ⟨e, after, e', after', ended, ended', interruptions, _, _, machines⟩
  · rw [ended, ended']
    simp only [Verdict.ofResult, machines.output]
    rfl
  · rw [ended, ended']
    cases interruptions with
    | @fault e e' causes lines =>
      obtain ⟨cause, line⟩ := e
      obtain ⟨cause', line'⟩ := e'
      obtain rfl : cause' = cause := causes.eq rfl
      obtain rfl : line' = σ.line line := lines
      simp only [Verdict.ofResult, machines.output]
      rfl
    | sinkFull | exhausted =>
      simp only [Verdict.ofResult, machines.output]
      rfl

/-- The verdict on a program on other lines is the one on the program, on those lines. -/
theorem verdict_relined (kept : σ.ids = 0) (source : String) (fuel : Nat) (clock : Nat → Float)
    (out : Sink) : (σ.program (Program.read source)).verdict fuel clock out =
      σ.verdict ((Program.read source).verdict fuel clock out) := by
  unfold Program.verdict program
  rw [resolve_relines kept]
  cases (Program.read source).faults with
  | cons d rest => rfl
  | nil =>
    rcases resolve (Program.read source).statements with ⟨depths, _ | ⟨e, rest⟩⟩
    · exact interpret_relined kept source fuel clock out
    · have faults : ((e :: rest).map σ.scopeFault).map Diagnostic.scope =
          ((e :: rest).map Diagnostic.scope).map σ.diagnostic := by
        rw [List.map_map, List.map_map]
        rfl
      exact congrArg (Verdict.mk .refused out) faults

end Relabeling
end LoxLang
