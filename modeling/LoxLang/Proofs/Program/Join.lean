import LoxLang.Proofs.Evaluation.Located
import LoxLang.Proofs.Grammar.Join
import LoxLang.Proofs.Output.Growth
import LoxLang.Proofs.Renaming.Invariance
import LoxLang.Proofs.Scope.Acceptance
import LoxLang.Proofs.Scope.Relabeling
import LoxLang.Proofs.Token.Join

/-! One program after another in one text. If both are accepted alone, so is the text; its statements are
those of the first program and then those of the second on later lines, with other identities. A run
of it does all that a run of the first program does, and then goes on, unless that run was stopped. -/
namespace LoxLang

section Reading
open Grammar Scope

variable {first second : String}

theorem Program.read_clean {source : String} (clean : (Program.read source).faults = []) :
    (scan source).2 = [] ∧ (readProgram (scan source).1).2 = [] := by
  simpa [Program.read_eq] using clean

/-- The text of two programs that are read without a fault is read as the one and then the other. -/
theorem read_join (clean : (Program.read first).faults = [])
    (clean' : (Program.read second).faults = []) :
    ∃ σ : Relabeling, Program.read (first ++ "\n" ++ second) =
      ⟨(Program.read first).statements ++ σ.stmts (Program.read second).statements, []⟩ := by
  obtain ⟨lexical, grammar⟩ := Program.read_clean clean
  obtain ⟨lexical', grammar'⟩ := Program.read_clean clean'
  obtain ⟨own, tokens, single⟩ := scan_end first
  obtain ⟨own', tokens', single'⟩ := scan_end second
  have scanned := scan_join first second (by simp [lexical])
  rw [tokens] at grammar
  rw [tokens'] at grammar'
  rw [tokens, tokens', lexical, lexical', List.dropLast_concat] at scanned
  obtain ⟨ids, read⟩ := readProgram_join rfl rfl (fun t member => (single t member).1)
    (fun t member => (single' t member).1) grammar grammar'
    (· + (first.toList.count '\n' + 1))
  refine ⟨⟨(· + (first.toList.count '\n' + 1)), ids⟩, ?_⟩
  rw [Program.read_eq, Program.read_eq first, Program.read_eq second, scanned, tokens, tokens', read]
  rfl

/-- The text of two accepted programs is accepted. -/
theorem accepted_join (accepted : (Program.read first).Accepted)
    (accepted' : (Program.read second).Accepted) :
    (Program.read (first ++ "\n" ++ second)).Accepted := by
  obtain ⟨σ, joined⟩ := read_join accepted.read accepted'.read
  have valid := (resolve_checks _).2.mp accepted.resolved
  have valid' := (resolve_checks _).2.mp accepted'.resolved
  rw [joined]
  exact ⟨rfl, (resolve_checks _).2.mpr (σ.valid_append valid valid')⟩

/-- What follows a program changes nothing about the depths of its references. -/
theorem depths_join {depths depths' : Depths} {later : List Stmt}
    (resolved : resolve (Program.read first).statements = (depths, []))
    (joined : (Program.read second).statements = (Program.read first).statements ++ later)
    (resolved' : resolve (Program.read second).statements = (depths', [])) :
    Throughout (fun r => depths'[r.id]? = depths[r.id]?)
      (occurrences (Program.read first).statements) := by
  intro o member
  have among : o ∈ occurrences (Program.read second).statements := by
    rw [joined, occurrences_append]
    exact List.mem_append_left _ member
  exact (resolve_records resolved' o among).1.trans (resolve_records resolved o member).1.symm

end Reading

section Running
open Grammar Scope Eval

variable {first second source : String} {fuel : Nat} {clock : Nat → Float} {out err : Sink}

/-- The depths of references that are not in a program do not matter to it. -/
theorem interpret_redepthed {depths depths' : Depths}
    (same : Throughout (fun r => depths'[r.id]? = depths[r.id]?)
      (occurrences (Program.read source).statements))
    (fuel : Nat) (clock : Nat → Float) (out : Sink) :
    Pairs (interpret fuel (Program.read source).statements)
      (interpret fuel (Program.read source).statements)
      (.start depths out clock) (.start depths' out clock)
      (fun _ after _ after' => after'.output = after.output)
      (fun e after e' after' => e' = e ∧ after'.output = after.output) := by
  let ρ : Comparison := ⟨⟨depths, "", ""⟩, depths', Eq, false⟩
  have unreserved : ρ.Unreserved := Comparison.unreserved_of_empty rfl rfl
  have suits : ρ.Suits _ _ _ := ⟨Comparison.named_of_empty rfl rfl rfl source, fun _ => rfl⟩
  have alike := suits.same_stmts (List.forall_mem_nil _) (Comparison.names_of_read (ρ := ρ) same)
  apply (Comparison.interpret_matches unreserved fuel alike _ _ (Comparison.start_alike out clock)).mono
  · rintro _ after _ after' ⟨_, _, machines, _⟩
    exact machines.output
  · rintro e after e' after' ⟨interruptions, _, _, machines⟩
    exact ⟨interruptions.eq rfl fun _ _ => Eq.symm, machines.output⟩

theorem run_join (accepted : (Program.read first).Accepted) (accepted' : (Program.read second).Accepted)
    (fuel : Nat) (clock : Nat → Float) (out err : Sink) :
    let done := run fuel clock first out err
    let whole := run fuel clock (first ++ "\n" ++ second) out err
    (done.ending ≠ .completed → whole = done) ∧ whole.out.Extends done.out := by
  obtain ⟨σ, joined⟩ := read_join accepted.read accepted'.read
  obtain ⟨depths, resolved⟩ := accepted.resolves
  obtain ⟨depths', resolved'⟩ := (accepted_join accepted accepted').resolves
  have depths := depths_join resolved (congrArg Program.statements joined) resolved'
  have pairs := interpret_redepthed depths fuel clock out
  rw [joined] at resolved'
  intro done whole
  simp only [done, whole, run, joined, Program.run_of_resolved _ accepted.read resolved,
    Program.run_of_resolved _ rfl resolved', interpret_append]
  rcases pairs.ends with ⟨⟨⟩, after, ⟨⟩, after', ended, ended', same⟩ |
    ⟨e, after, e', after', ended, ended', rfl, same⟩
  · rw [ended, bind_of_ok ended']
    refine ⟨fun stopped => absurd rfl stopped, ?_⟩
    have printed : after'.output = (Outcome.ofResult err (.ok () after)).out := same
    rw [← printed]
    exact Outcome.ofResult_out (P := fun s => s.Extends after'.output)
      (printing_steady.interpret fuel _ after')
  · rw [ended, bind_of_error ended', Outcome.ofResult_error same]
    exact ⟨fun _ => rfl, .refl _⟩

/-- An accepted program behind another one changes nothing about what came before. The text of both is
accepted; if the first program is stopped, its run is that of the whole text, and otherwise the whole
text prints what the first program does before anything else. -/
theorem joined_run_continues {fuel' : Nat} (more : fuel ≤ fuel')
    (accepted : (Program.read first).Accepted) (accepted' : (Program.read second).Accepted)
    (enough : (run fuel clock first out err).ending ≠ .exhausted) :
    let done := run fuel clock first out err
    let whole := run fuel' clock (first ++ "\n" ++ second) out err
    (Program.read (first ++ "\n" ++ second)).Accepted ∧
      (done.ending ≠ .completed → whole = done) ∧ whole.out.Extends done.out := by
  have same : run fuel' clock first out err = run fuel clock first out err :=
    Program.run_of_more more enough
  have joined := run_join accepted accepted' fuel' clock out err
  rw [same] at joined
  exact ⟨accepted_join accepted accepted', joined⟩

/-- The first program is stopped at a variable that only the second one declares. -/
theorem later_declaration_not_run :
    let first := "print nil; a;"
    let second := "var a;"
    let run fuel source := run fuel (fun _ => 0) source (.ofCapacity none) (.ofCapacity none)
    (Program.read first).Accepted ∧ (Program.read second).Accepted ∧
      (run 4 first).ending = .stopped ∧ (Program.read (first ++ "\n" ++ second)).Accepted ∧
      run 9 (first ++ "\n" ++ second) = run 4 first := by
  intro first second run'
  let name : Token := ⟨.identifier, "a", 1⟩
  let tokens : List Token := [⟨.keyword .print_, "print", 1⟩, ⟨.keyword .nil_, "nil", 1⟩,
    ⟨.symbol .semicolon, ";", 1⟩, name, ⟨.symbol .semicolon, ";", 1⟩, ⟨.endOfFile, "", 1⟩]
  let tokens' : List Token := [⟨.keyword .var_, "var", 1⟩, name, ⟨.symbol .semicolon, ";", 1⟩,
    ⟨.endOfFile, "", 1⟩]
  let program : List Stmt := [.print (.literal .nil), .expression (.variable ⟨0, name⟩)]
  have scanned : scan first = (tokens, []) := by decide +kernel
  have parsed : Grammar.readProgram tokens = (program, []) := rfl
  have scanned' : scan second = (tokens', []) := by decide +kernel
  have parsed' : Grammar.readProgram tokens' = ([.var name none], []) := rfl
  have read : Program.read first = ⟨program, []⟩ := Program.read_of_scan scanned parsed
  have read' : Program.read second = ⟨[.var name none], []⟩ := Program.read_of_scan scanned' parsed'
  have accepted : (Program.read first).Accepted := by
    rw [read]
    exact ⟨rfl, rfl⟩
  have accepted' : (Program.read second).Accepted := by
    rw [read']
    exact ⟨rfl, rfl⟩
  have stopped : (run' 4 first).ending = .stopped := by
    simp only [run', run, read]
    rfl
  have enough : (run' 4 first).ending ≠ .exhausted := by
    rw [stopped]
    decide
  have joined := joined_run_continues (by decide : 4 ≤ 9) accepted accepted' enough
  refine ⟨accepted, accepted', stopped, joined.1, joined.2.1 ?_⟩
  rw [show (run' 4 first).ending = .stopped from stopped]
  decide

end Running

end LoxLang
