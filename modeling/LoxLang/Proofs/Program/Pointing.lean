import LoxLang.Proofs.Program.Join
import LoxLang.Proofs.Program.Relining
import LoxLang.Proofs.Token.Lines

/-! Diagnostics point into the text. Whatever is reported, by whichever stage and however late in a run,
is on a line of the text; and but for the faults of scanning it is on the line of a token. No stage makes
up a line: where the tokens are put on other lines, all that is reported moves along with them. So a line
that stays whenever the tokens stay where they are is the line of one of them. -/
namespace LoxLang
open Grammar Scope

/-- Leaves these lines alone, and puts what is on any other line on the next one. -/
def Relabeling.fixing (lines : List Nat) : Relabeling :=
  ⟨fun line => if line ∈ lines then line else line + 1, 0⟩

namespace Relabeling

variable {lines : List Nat}

theorem fixing_line_eq_iff {line : Nat} : (fixing lines).line line = line ↔ line ∈ lines := by
  by_cases listed : line ∈ lines <;> simp [fixing, listed]

theorem fixing_token {t : Token} (listed : t.line ∈ lines) : (fixing lines).token t = t := by
  have line := fixing_line_eq_iff.mpr listed
  simp only [token, Token.relined, line]

theorem fixing_tokens (tokens : List Token) :
    tokens.map (fixing (tokens.map Token.line)).token = tokens :=
  calc tokens.map (fixing (tokens.map Token.line)).token
    _ = tokens.map id :=
      List.map_congr_left fun _ member => fixing_token (List.mem_map_of_mem member)
    _ = tokens := List.map_id tokens

end Relabeling

/-- A diagnostic that stays where it is when the tokens do is on the line of a token. -/
theorem token_of_fixed {tokens : List Token} {ds : List Diagnostic}
    (same : ds.map (Relabeling.fixing (tokens.map Token.line)).diagnostic = ds) {d : Diagnostic}
    (member : d ∈ ds) : ∃ t ∈ tokens, t.line = d.line := by
  have stays := List.map_inj_left.mp (same.trans ds.map_id.symm) d member
  have line := congrArg Diagnostic.line stays
  rw [Relabeling.diagnostic_line] at line
  exact List.mem_map.mp (Relabeling.fixing_line_eq_iff.mp line)

/-- A diagnostic of a verdict is a fault of scanning, or it is on the line of a token. -/
theorem Program.verdict_points (source : String) (fuel : Nat) (clock : Nat → Float) (out : Sink)
    {d : Diagnostic} (member : d ∈ ((Program.read source).verdict fuel clock out).diagnostics) :
    (∃ e ∈ (scan source).2, d = .lexical e) ∨ ∃ t ∈ (scan source).1, t.line = d.line := by
  let σ := Relabeling.fixing ((scan source).1.map Token.line)
  have read : readProgram ((scan source).1.map σ.token) = _ := Relabeling.readProgram_relined rfl source
  rw [Relabeling.fixing_tokens] at read
  have statements : (readProgram (scan source).1).1 = σ.stmts _ := congrArg Prod.fst read
  have faults : (readProgram (scan source).1).2 = List.map σ.fault _ := congrArg Prod.snd read
  cases found : (Program.read source).faults with
  | nil =>
    have faultless : (Program.read source).faults.map σ.diagnostic = (Program.read source).faults := by
      rw [found, List.map_nil]
    have fixed : σ.program (Program.read source) = Program.read source :=
      congrArg₂ Program.mk statements.symm faultless
    have verdicts := Relabeling.verdict_relined (σ := σ) rfl source fuel clock out
    rw [fixed] at verdicts
    exact .inr (token_of_fixed (congrArg Verdict.diagnostics verdicts).symm member)
  | cons first rest =>
    have refused : ((Program.read source).verdict fuel clock out).diagnostics =
        (Program.read source).faults := by
      unfold Program.verdict
      rw [found]
    rw [refused, Program.read_eq] at member
    rcases List.mem_append.mp member with lexical | grammar
    · obtain ⟨e, among, rfl⟩ := List.mem_map.mp lexical
      exact .inl ⟨e, among, rfl⟩
    · refine .inr (token_of_fixed ?_ grammar)
      rw [List.map_map]
      conv_rhs => rw [faults, List.map_map]
      rfl

/-- Whatever a run of a text reports names a line of the text. Unless it is a fault of scanning, it is the
line of a token that the text has been cut into. -/
theorem diagnostics_point_into_text (source : String) (fuel : Nat) (clock : Nat → Float)
    (out err : Sink) :
    let verdict := (Program.read source).verdict fuel clock out
    run fuel clock source out err = verdict.outcome err ∧
      ∀ d ∈ verdict.diagnostics, 1 ≤ d.line ∧ d.line ≤ 1 + source.toList.count '\n' ∧
        ((∀ e, d ≠ .lexical e) → ∃ t ∈ (scan source).1, t.line = d.line) := by
  intro verdict
  refine ⟨Program.run_eq_outcome _ fuel clock out err, fun d member => ?_⟩
  obtain ⟨tokens, lexical⟩ := scan_lines_within source
  rcases Program.verdict_points source fuel clock out member with ⟨e, among, rfl⟩ | ⟨t, among, line⟩
  · obtain ⟨low, high⟩ := lexical e among
    exact ⟨low, high, fun other => absurd rfl (other e)⟩
  · obtain ⟨low, high⟩ := tokens t among
    rw [line] at low high
    exact ⟨low, high, fun _ => ⟨t, among, line⟩⟩

end LoxLang
