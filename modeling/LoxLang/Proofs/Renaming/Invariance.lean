import Mathlib
import LoxLang.Proofs.Output.Truncation
import LoxLang.Proofs.Renaming.Choice
import LoxLang.Proofs.Renaming.Evaluation
import LoxLang.Proofs.Renaming.Resolution
import LoxLang.Proofs.Scope.Referring
import LoxLang.Proofs.Token.Join

/-! Renaming a local variable changes nothing. The program with the variable renamed resolves without a
fault, with the same depths, and a run of it prints the same and ends in the same way. What a run
reports may differ, since a message can have the name of the variable in it. -/
namespace LoxLang
namespace Comparison
open Grammar Scope Eval Renaming

variable {ρ : Comparison} {source : String} {program' : List Stmt}

section Reading

/-- The reference has the same depth in both programs. -/
def SameDepth (ρ : Comparison) (r : Reference) : Prop := ρ.depths'[r.id]? = ρ.depths[r.id]?

/-- The new name may be any that is neither a reserved word nor an identifier of the program. -/
theorem named_of_fresh (whole : ρ.omits = false) (unreserved : ρ.Unreserved)
    (fresh : ∀ t ∈ (scan source).1, t.kind = .identifier → t.lexeme ≠ ρ.new) :
    ρ.Named (IsName (scan source).1) (fun r => IsName (scan source).1 r.name ∧ ρ.SameDepth r)
      (fun r => IsWord (scan source).1 r.name ∧ ρ.SameDepth r) where
  whole
  fresh t name := fresh t name.member name.kind
  references r held := ⟨fresh r.name held.1.member held.1.kind, held.2⟩
  words r held := by
    have fitting := scan_fitting source r.name held.1.member
    rcases held.1.kind with kind | kind
    · rw [fitting.word kind]
      exact ⟨(unreserved.new .this_).symm, (unreserved.old .this_).symm, held.2⟩
    · rw [fitting.word kind]
      exact ⟨(unreserved.new .super_).symm, (unreserved.old .super_).symm, held.2⟩

/-- It suits a program whose tokens may keep their lines. -/
theorem suits_of_fresh (whole : ρ.omits = false) (unreserved : ρ.Unreserved)
    (fresh : ∀ t ∈ (scan source).1, t.kind = .identifier → t.lexeme ≠ ρ.new)
    (lines : ∀ line, ρ.line line line) :
    ρ.Suits (IsName (scan source).1) (fun r => IsName (scan source).1 r.name ∧ ρ.SameDepth r)
      (fun r => IsWord (scan source).1 r.name ∧ ρ.SameDepth r) :=
  ⟨named_of_fresh whole unreserved fresh, lines⟩

section Empty

variable (old : ρ.old = "") (new : ρ.new = "")
include old new

theorem unreserved_of_empty : ρ.Unreserved := by
  have free (k : Keyword) : "" ≠ k.spelling := by cases k <;> decide
  exact ⟨fun k => old ▸ free k, fun k => new ▸ free k⟩

/-- No name of a program is empty, so nothing happens where the empty one is renamed to itself. -/
theorem named_of_empty (whole : ρ.omits = false) (source : String) :
    ρ.Named (IsName (scan source).1) (fun r => IsName (scan source).1 r.name ∧ ρ.SameDepth r)
      (fun r => IsWord (scan source).1 r.name ∧ ρ.SameDepth r) := by
  apply named_of_fresh whole (unreserved_of_empty old new)
  intro t member kind
  rw [new]
  exact scan_name_ne_empty member kind

end Empty

/-- All references of a program that is read from a text have what all its occurrences have. -/
theorem names_of_read (same : Throughout ρ.SameDepth (occurrences (Program.read source).statements)) :
    stmtsNames (IsName (scan source).1) (fun r => IsName (scan source).1 r.name ∧ ρ.SameDepth r)
      (fun r => IsWord (scan source).1 r.name ∧ ρ.SameDepth r) (Program.read source).statements := by
  obtain ⟨high, built⟩ := readProgram_built (scan source).1
  exact stmtsNames_of_throughout [] _ (names_of_built built) same

end Reading

section Running

/-- Before a run there is only the frame of the globals, with the native functions. -/
theorem start_alike (out : Sink) (clock : Nat → Float) :
    ρ.MachinesAlike [⟨false, none, some ⟨⟨0⟩, none⟩⟩] [] (.start ρ.depths out clock)
      (.start ρ.depths' out clock) := by
  have alone {marked : Bool} {frame frame' : FrameId} {P : Prop}
      (twins : Layout.Twins [] marked frame frame') : P := nomatch twins
  have empty : ρ.StoresAlike [] .empty .empty :=
    { size := rfl
      enclosing := nofun
      enclosing' := nofun
      made := fun _ _ _ => alone
      apart := fun _ _ _ _ _ => alone
      bindings := fun _ _ _ => alone
      instances := rfl
      fields := fun _ _ _ _ => .none
      functions := rfl
      classes := rfl }
  have bindings : ρ.BindingsAlike [] false [("clock", .native .clock)] [("clock", .native .clock)] :=
    bindingsAlike_single "clock" .native
  have store : ρ.StoresAlike [⟨false, _, some ⟨⟨0⟩, _⟩⟩] (Store.empty.newFrame none _).2
      (Store.empty.newFrame none _).2 := empty.newFrame bindings
  have globals : ρ.Chain [⟨false, none, some ⟨⟨0⟩, none⟩⟩] ⟨0⟩ ⟨0⟩ [] := .globals rfl
  exact
    { chain := globals
      top := globals
      depths := rfl
      depths' := rfl
      activeCalls := rfl
      store
      output := rfl
      clock := rfl
      clockReadings := rfl }

/-- Programs that are alike, with the depths that are compared, print the same and end in the same way. -/
theorem run_of_alike (unreserved : ρ.Unreserved) {program : List Stmt}
    (alike : ρ.Alike [] (.stmts program) (.stmts program'))
    (resolved : resolve program = (ρ.depths, [])) (resolved' : resolve program' = (ρ.depths', []))
    (fuel : Nat) (clock : Nat → Float) (out : Sink) :
    let outcome := Program.run ⟨program, []⟩ fuel clock out (.ofCapacity none)
    let outcome' := Program.run ⟨program', []⟩ fuel clock out (.ofCapacity none)
    outcome'.out = outcome.out ∧ outcome'.ending = outcome.ending := by
  have pairs := interpret_matches unreserved fuel alike _ _ (start_alike out clock)
  intro outcome outcome'
  simp only [outcome, outcome', Program.run_of_resolved ⟨program, []⟩ rfl resolved,
    Program.run_of_resolved ⟨program', []⟩ rfl resolved']
  rcases pairs.ends with ⟨_, after, _, after', ended, ended', _, _, machines, _⟩ |
    ⟨e, after, e', after', ended, ended', interruptions, _, _, machines⟩
  · rw [ended, ended']
    exact ⟨machines.output, rfl⟩
  · rw [ended, ended', Outcome.ofResult_error_out, Outcome.ofResult_error_out]
    refine ⟨machines.output, ?_⟩
    cases interruptions with
    | fault _ =>
      rw [Outcome.ofResult, Outcome.ofResult, conclude_unlimited rfl, conclude_unlimited rfl]
    | sinkFull => rfl
    | exhausted => rfl

end Running

end Comparison

namespace Renaming
open Grammar Scope

variable {source : String} {program' : List Stmt}

/-- Renaming one variable of a block or a function, together with the references that lead to it,
leaves the depths of a program as they are, and what it prints, and how it ends. The new name is that
of no reserved word and of no identifier of the program. -/
theorem renaming_preserves_runs {old new : String}
    (read : (Program.read source).faults = [])
    (clean : (resolve (Program.read source).statements).2 = [])
    (free : ∀ k : Keyword, new ≠ k.spelling)
    (fresh : ∀ t ∈ (scan source).1, t.kind = .identifier → t.lexeme ≠ new)
    (renames : Renames ⟨(resolve (Program.read source).statements).1, old, new⟩ []
      (.stmts (Program.read source).statements) (.stmts program')) :
    resolve program' = resolve (Program.read source).statements ∧
      ∀ (fuel : Nat) (clock : Nat → Float) (out : Sink),
        let outcome := run fuel clock source out (.ofCapacity none)
        let outcome' := Program.run ⟨program', []⟩ fuel clock out (.ofCapacity none)
        outcome'.out = outcome.out ∧ outcome'.ending = outcome.ending := by
  have resolved : resolve (Program.read source).statements =
      ((resolve (Program.read source).statements).1, []) := Prod.ext rfl clean
  let ρ : Comparison := ⟨⟨(resolve (Program.read source).statements).1, old, new⟩,
    (resolve (Program.read source).statements).1, Eq, false⟩
  have everywhere : Throughout ρ.SameDepth (occurrences (Program.read source).statements) :=
    fun _ _ => rfl
  have held := Comparison.names_of_read everywhere
  obtain ⟨t, name, same⟩ := renames.old_held held
  have reserved (k : Keyword) : old ≠ k.spelling := by
    have unlike := (scan_fitting source t name.member).name name.kind k
    rwa [same] at unlike
  have unreserved : ρ.Unreserved := ⟨reserved, free⟩
  have suits := Comparison.suits_of_fresh rfl unreserved fresh fun _ => rfl
  have alike := Comparison.alike_of_renames renames suits nofun held (apart_of_resolved resolved)
  have recorded : ρ.Recorded (occurrences (Program.read source).statements) :=
    fun o member => (resolve_records resolved o member).1
  have resolved' := Comparison.resolve_of_alike rfl unreserved alike recorded resolved
  refine ⟨resolved'.trans resolved.symm, fun fuel clock out => ?_⟩
  have whole : Program.read source = ⟨(Program.read source).statements, []⟩ := by
    rw [← read]
  unfold run
  rw [whole]
  exact Comparison.run_of_alike unreserved alike resolved resolved' fuel clock out

/-- The variable of a block renamed, and not the global variable of the same name. -/
theorem block_variable_renamed :
    let source := "var a; \x7bvar a; a;\x7d a;"
    let outer : Token := ⟨.identifier, "a", 1⟩
    let inner : Token := ⟨.identifier, "b", 1⟩
    let renamed : List Stmt := [.var outer none,
      .block [.var inner none, .expression (.variable ⟨0, inner⟩)], .expression (.variable ⟨1, outer⟩)]
    (Program.read source).faults = [] ∧ (resolve (Program.read source).statements).2 = [] ∧
      (∀ k : Keyword, "b" ≠ k.spelling) ∧
      (∀ t ∈ (scan source).1, t.kind = .identifier → t.lexeme ≠ "b") ∧
      Renames ⟨(resolve (Program.read source).statements).1, "a", "b"⟩ []
        (.stmts (Program.read source).statements) (.stmts renamed) ∧
      resolve renamed = resolve (Program.read source).statements ∧
      ∀ (fuel : Nat) (clock : Nat → Float) (out : Sink),
        let outcome := run fuel clock source out (.ofCapacity none)
        let outcome' := Program.run ⟨renamed, []⟩ fuel clock out (.ofCapacity none)
        outcome'.out = outcome.out ∧ outcome'.ending = outcome.ending := by
  intro source outer inner renamed
  let tokens : List Token := [⟨.keyword .var_, "var", 1⟩, outer, ⟨.symbol .semicolon, ";", 1⟩,
    ⟨.symbol .leftBrace, "\x7b", 1⟩, ⟨.keyword .var_, "var", 1⟩, outer, ⟨.symbol .semicolon, ";", 1⟩,
    outer, ⟨.symbol .semicolon, ";", 1⟩, ⟨.symbol .rightBrace, "\x7d", 1⟩, outer,
    ⟨.symbol .semicolon, ";", 1⟩, ⟨.endOfFile, "", 1⟩]
  let program : List Stmt := [.var outer none,
    .block [.var outer none, .expression (.variable ⟨0, outer⟩)], .expression (.variable ⟨1, outer⟩)]
  have scanned : scan source = (tokens, []) := by decide +kernel
  have parsed : Grammar.readProgram tokens = (program, []) := by cbv
  have whole : Program.read source = ⟨program, []⟩ := Program.read_of_scan scanned parsed
  have read : (Program.read source).faults = [] := by rw [whole]
  have clean : (resolve (Program.read source).statements).2 = [] := by
    rw [whole]
    rfl
  have free (k : Keyword) : "b" ≠ k.spelling := by cases k <;> decide
  have fresh : ∀ t ∈ (scan source).1, t.kind = .identifier → t.lexeme ≠ "b" := by
    rw [scanned]
    simp [tokens, outer]
  have renames : Renames ⟨(resolve (Program.read source).statements).1, "a", "b"⟩ []
      (.stmts (Program.read source).statements) (.stmts renamed) := by
    rw [whole]
    exact .later (.here (.block ⟨outer, none, List.mem_cons_self, rfl⟩))
  exact ⟨read, clean, free, fresh, renames, renaming_preserves_runs read clean free fresh renames⟩

end Renaming
end LoxLang
