import LoxLang.Proofs.Program.Relining

/-! The layout of a text does not matter. Two texts with the same tokens on different lines are read,
resolved and run alike: what one of them prints the other one prints, they end in the same way, and what
they report differs in line numbers only. The tokens of either text are compared with the same tokens
all on one line. -/
namespace LoxLang
open Grammar Scope Eval

/-- The token without its line. -/
def Token.unlined (t : Token) : Token := t.relined fun _ => 0

/-- The diagnostic without its line. -/
def Diagnostic.unlined : Diagnostic → Diagnostic
  | .lexical e => .lexical { e with line := 0 }
  | .grammar e => .grammar { e with found := e.found.unlined }
  | .scope e => .scope { e with found := e.found.unlined }
  | .runtime e => .runtime { e with line := 0 }

theorem Diagnostic.unlined_unlined (d : Diagnostic) : d.unlined.unlined = d.unlined := by
  cases d <;> rfl

theorem Diagnostic.map_unlined_unlined (ds : List Diagnostic) :
    (ds.map unlined).map unlined = ds.map unlined := by
  rw [List.map_map]
  exact List.map_congr_left fun d _ => d.unlined_unlined

/-- The verdict without the lines of its diagnostics. -/
def Verdict.unlined (v : Verdict) : Verdict := { v with diagnostics := v.diagnostics.map .unlined }

/-- Puts everything on one line. -/
def oneLine : Relabeling := ⟨fun _ => 0, 0⟩

/-- The program on one line. -/
def Program.unlined (program : Program) : Program where
  statements := oneLine.stmts program.statements
  faults := program.faults.map .unlined

/-- Texts without lexical faults whose tokens are the same on one line are the same programs there. -/
theorem read_unlined {source source' : String} (clean : (scan source).2 = [])
    (clean' : (scan source').2 = [])
    (same : (scan source').1.map Token.unlined = (scan source).1.map Token.unlined) :
    (Program.read source').unlined = (Program.read source).unlined := by
  have unlined (source : String) (clean : (scan source).2 = []) : (Program.read source).unlined =
      ⟨(readProgram ((scan source).1.map Token.unlined)).1,
        (readProgram ((scan source).1.map Token.unlined)).2.map .grammar⟩ := by
    have faults : (Program.read source).faults = (readProgram (scan source).1).2.map .grammar := by
      simp [Program.read, clean]
    have read : readProgram ((scan source).1.map Token.unlined) = _ :=
      Relabeling.readProgram_relined (σ := oneLine) rfl source
    rw [read, Program.unlined, faults, List.map_map, List.map_map]
    rfl
  rw [unlined source clean, unlined source' clean', same]

/-- The verdict on a program and the verdict on the program on one line differ in lines only. -/
theorem verdict_unlined (source : String) (fuel : Nat) (clock : Nat → Float) (out : Sink) :
    ((Program.read source).unlined.verdict fuel clock out).unlined =
      ((Program.read source).verdict fuel clock out).unlined := by
  have diagnostic : oneLine.diagnostic = Diagnostic.unlined := by
    funext d
    cases d <;> rfl
  have relined := Relabeling.verdict_relined (σ := oneLine) rfl source fuel clock out
  simp only [Relabeling.program, Relabeling.verdict, diagnostic] at relined
  unfold Program.unlined
  rw [relined]
  simp only [Verdict.unlined, Diagnostic.map_unlined_unlined]

/-- The layout of a text changes nothing but line numbers. Two texts without lexical faults, whose tokens
agree in kind and lexeme, are run with the same fuel to the same ending, so one run comes to an end if
the other does; they print the same, and their diagnostics are the same in the same order, up to the
lines they name. -/
theorem layout_changes_only_lines {source source' : String} (clean : (scan source).2 = [])
    (clean' : (scan source').2 = [])
    (same : (scan source').1.map Token.unlined = (scan source).1.map Token.unlined) (fuel : Nat)
    (clock : Nat → Float) (out : Sink) :
    let verdict := (Program.read source).verdict fuel clock out
    let verdict' := (Program.read source').verdict fuel clock out
    (∀ err, run fuel clock source out err = verdict.outcome err) ∧
      (∀ err, run fuel clock source' out err = verdict'.outcome err) ∧
      verdict'.ending = verdict.ending ∧ verdict'.out = verdict.out ∧
      verdict'.diagnostics.map Diagnostic.unlined = verdict.diagnostics.map Diagnostic.unlined := by
  have unlined := verdict_unlined source fuel clock out
  have unlined' := verdict_unlined source' fuel clock out
  rw [read_unlined clean clean' same, unlined] at unlined'
  have endings := congrArg Verdict.ending unlined'
  have outs := congrArg Verdict.out unlined'
  have diagnostics := congrArg Verdict.diagnostics unlined'
  exact ⟨Program.run_eq_outcome _ fuel clock out, Program.run_eq_outcome _ fuel clock out,
    endings.symm, outs.symm, diagnostics.symm⟩

/-- A variable that is declared nowhere stops the run behind a comment and on a later line, too. -/
theorem undefined_variable_on_later_line :
    let source := "print nil;a;"
    let source' := "print nil // a\n; a\n;"
    let verdict source := (Program.read source).verdict 4 (fun _ => 0) (.ofCapacity none)
    (scan source).2 = [] ∧ (scan source').2 = [] ∧
      (scan source').1.map Token.unlined = (scan source).1.map Token.unlined ∧
      (verdict source).diagnostics = [.runtime ⟨.undefinedVariable "a", 1⟩] ∧
      (verdict source').ending = .stopped ∧ (verdict source').out = (verdict source).out ∧
      (verdict source').diagnostics.map Diagnostic.unlined = [.runtime ⟨.undefinedVariable "a", 0⟩] := by
  intro source source' verdict
  let name : Token := ⟨.identifier, "a", 1⟩
  let tokens : List Token := [⟨.keyword .print_, "print", 1⟩, ⟨.keyword .nil_, "nil", 1⟩,
    ⟨.symbol .semicolon, ";", 1⟩, name, ⟨.symbol .semicolon, ";", 1⟩, ⟨.endOfFile, "", 1⟩]
  let program : List Stmt := [.print (.literal .nil), .expression (.variable ⟨0, name⟩)]
  have scanned : scan source = (tokens, []) := by decide +kernel
  have parsed : readProgram tokens = (program, []) := rfl
  have read : Program.read source = ⟨program, []⟩ := Program.read_of_scan scanned parsed
  have clean : (scan source).2 = [] := by rw [scanned]
  have clean' : (scan source').2 = [] := by decide +kernel
  have same : (scan source').1.map Token.unlined = (scan source).1.map Token.unlined := by
    decide +kernel
  obtain ⟨-, -, ending, printed, diagnostics⟩ :=
    layout_changes_only_lines clean clean' same 4 (fun _ => 0) (.ofCapacity none)
  have found : (verdict source).diagnostics = [.runtime ⟨.undefinedVariable "a", 1⟩] := by
    simp only [verdict, read]
    rfl
  have stopped : (verdict source).ending = .stopped := by
    simp only [verdict, read]
    rfl
  refine ⟨clean, clean', same, found, ending.trans stopped, printed, diagnostics.trans ?_⟩
  exact congrArg (List.map Diagnostic.unlined) found

end LoxLang
