import Mathlib
import LoxLang.Proofs.Evaluation.Located
import LoxLang.Proofs.Scope.Pending

/-! Writing what was located. An assignment whose depth was recorded writes to the frame at that depth,
which binds the name by then, with one exception: in the initializer of a variable its own name is
already declared and not yet bound, and an assignment to it, unlike a reading of it, is let through. -/
namespace LoxLang.Eval
open Scope

theorem assign_of_binds {r : Reference} {v : Value} {m : Machine} {d : Nat} {frame : FrameId}
    (recorded : m.depths[r.id]? = some d) (ancestor : m.store.ancestor? d m.current = some frame)
    (bound : m.store.binds frame r.name.lexeme) :
    assign r v m = .ok () { m with store := m.store.define frame r.name.lexeme v } := by
  have holder : m.store.holderAt? d m.current r.name.lexeme = some frame := by
    simp only [Store.holderAt?, ancestor, Option.filter_some, bound, if_true]
  have got : (get : Eval Machine) m = .ok m m := rfl
  have written : onStore (fun s => s.assignAt d m.current r.name.lexeme v) m =
      .ok true { m with store := m.store.define frame r.name.lexeme v } := by
    simp only [onStore, Store.assignAt_eq, holder, Store.overwrite]
  unfold assign
  rw [bind_of_ok got, recorded]
  change overwrite r.name (fun s => s.assignAt d m.current r.name.lexeme v) m = _
  unfold overwrite
  rw [bind_of_ok written]
  rfl

/-- In a program that is read and resolved without a fault, whenever the value of an assignment has
been evaluated and a depth is recorded for its target, the frame at that depth gives the name the value,
unless the assignment stands in the initializer of the variable itself. -/
theorem located_writing_succeeds {fuel n d : Nat} {clock : Nat → Float} {source : String} {out : Sink}
    {m next : Machine} {r : Reference} {value : Expr} {v : Value}
    (clean : (resolve (Program.read source).statements).2 = [])
    (reached : (Run.ofSource fuel clock source out).Reaches ⟨n + 1, .evaluate (.assign r value), m⟩)
    (recorded : (resolve (Program.read source).statements).1[r.id]? = some d)
    (settled : ∀ o ∈ occurrences (Program.read source).statements, o.reference = r → ¬ o.Pending)
    (given : evaluate n value m = .ok v next) :
    ∃ frame, next.store.ancestor? d next.current = some frame ∧
      assign r v next = .ok () { next with store := next.store.define frame r.name.lexeme v } := by
  have fresh := Run.fresh_ofSource fuel clock source out
  obtain ⟨levels, scopes, sound⟩ := fresh.sound reached
  have whole : exprOccurrences levels value ++ [⟨.write, r, levels⟩] ⊆
      occurrences (Program.read source).statements := sound.task
  obtain ⟨inner, target⟩ := List.append_subset.mp whole
  have member := target (List.mem_singleton_self _)
  have resolved : resolve (Program.read source).statements =
      ((resolve (Program.read source).statements).1, []) := Prod.ext rfl clean
  have nearest : levels.findIdx? (·.names.contains r.name.lexeme) = some d :=
    (resolve_records resolved _ member).1.symm.trans recorded
  obtain ⟨level, chosen, named⟩ := ready_of_settled member (settled _ member rfl) nearest
  -- Evaluating the value has left the frames around the assignment where they were.
  have before := (sound.start .assigned id inner).evaluated (Run.allDeliver _ n) given
  have mirrored := sound.mirrored.grown before.1.grown
  rw [← before.1.current] at mirrored
  obtain ⟨activation, _, _, ancestor, bound⟩ := mirrored.located chosen
  have kept : next.depths[r.id]? = some d := by
    rw [(((allRestored n).evaluate value m).ok_of given).depths, reached.depths]
    exact recorded
  exact ⟨activation.frame, ancestor, assign_of_binds kept ancestor (bound _ named)⟩

/-- A block assigns to a variable of the block around it, one frame out. -/
theorem inner_block_writes_outer :
    let source := "\x7bvar a;\x7ba = nil;\x7d\x7d"
    let run := Run.ofSource 9 (fun _ => 0) source (.ofCapacity none)
    ∃ n m r value v next frame, run.Reaches ⟨n + 1, .evaluate (.assign r value), m⟩ ∧
      evaluate n value m = .ok v next ∧ (resolve (Program.read source).statements).1[r.id]? = some 1 ∧
      assign r v next = .ok () { next with store := next.store.define frame r.name.lexeme v } := by
  intro source run
  let a : Token := ⟨.identifier, "a", 1⟩
  let opening : Token := ⟨.symbol .leftBrace, "\x7b", 1⟩
  let closing : Token := ⟨.symbol .rightBrace, "\x7d", 1⟩
  let semicolon : Token := ⟨.symbol .semicolon, ";", 1⟩
  let tokens := [opening, ⟨.keyword .var_, "var", 1⟩, a, semicolon, opening, a, ⟨.symbol .equal, "=", 1⟩,
    ⟨.keyword .nil_, "nil", 1⟩, semicolon, closing, closing, ⟨.endOfFile, "", 1⟩]
  let writing : Stmt := .expression (.assign ⟨1, a⟩ (.literal .nil))
  let inner : List Stmt := [writing]
  let outer : List Stmt := [.var a none, .block inner]
  let levels : List Level := [⟨.block inner, []⟩, ⟨.block outer, [("a", true)]⟩]
  have scanned : (scan source).1 = tokens := by decide +kernel
  have parsed : (Grammar.readProgram tokens).1 = [.block outer] := by cbv
  have read : (Program.read source).statements = [.block outer] := Program.statements_of_scan scanned parsed
  have clean : (resolve (Program.read source).statements).2 = [] := by
    rw [read]
    rfl
  have recorded : (resolve (Program.read source).statements).1[(⟨1, a⟩ : Reference).id]? = some 1 := by
    rw [read]
    rfl
  have listed : occurrences [.block outer] = [⟨.write, ⟨1, a⟩, levels⟩] := rfl
  have settled : ∀ o ∈ occurrences (Program.read source).statements,
      o.reference = ⟨1, a⟩ → ¬ o.Pending := by
    rw [read, listed]
    rintro o member _ ⟨level, head, got⟩
    obtain rfl := List.mem_singleton.mp member
    cases head
    cases got
  have whole : run.program = [] ++ .block outer :: [] := read
  have start : run.Reaches ⟨9, .execute (.block outer), run.first⟩ := .start (.statement whole rfl)
  have entered : run.Reaches ⟨8, .executeAll outer, blockEntered run.first⟩ := .enter start .block
  have declared : execute 7 (.var a none) (blockEntered run.first) = .ok .normal _ := rfl
  have reached := ((((entered.enter (.laterStatements declared)).enter .firstStatement).enter .block).enter
    .firstStatement).enter .expression
  obtain ⟨frame, _, written⟩ := located_writing_succeeds clean reached recorded settled rfl
  exact ⟨_, _, _, _, _, _, frame, reached, rfl, recorded, written⟩

/-- An assignment to a local variable in its own initializer is located, in the frame of the block, but
fails, because the variable is not bound there yet. -/
theorem own_initializer_cannot_write :
    let source := "\x7bvar a = a = nil;\x7d"
    let run := Run.ofSource 9 (fun _ => 0) source (.ofCapacity none)
    (Program.read source).faults = [] ∧ (resolve (Program.read source).statements).2 = [] ∧
      ∃ n m r value v next, run.Reaches ⟨n + 1, .evaluate (.assign r value), m⟩ ∧
        evaluate n value m = .ok v next ∧ (resolve (Program.read source).statements).1[r.id]? = some 0 ∧
        assign r v next = .error (.fault ⟨.undefinedVariable "a", 1⟩) next := by
  intro source run
  let a : Token := ⟨.identifier, "a", 1⟩
  let equal : Token := ⟨.symbol .equal, "=", 1⟩
  let tokens := [⟨.symbol .leftBrace, "\x7b", 1⟩, ⟨.keyword .var_, "var", 1⟩, a, equal, a, equal,
    ⟨.keyword .nil_, "nil", 1⟩, ⟨.symbol .semicolon, ";", 1⟩, ⟨.symbol .rightBrace, "\x7d", 1⟩,
    ⟨.endOfFile, "", 1⟩]
  let body : List Stmt := [.var a (some (.assign ⟨1, a⟩ (.literal .nil)))]
  have scanned : scan source = (tokens, []) := by decide +kernel
  have parsed : Grammar.readProgram tokens = ([.block body], []) := by cbv
  have read : Program.read source = ⟨[.block body], []⟩ := Program.read_of_scan scanned parsed
  have whole : run.program = [] ++ .block body :: [] := by
    change (Program.read source).statements = _
    rw [read]
    rfl
  have start : run.Reaches ⟨9, .execute (.block body), run.first⟩ := .start (.statement whole rfl)
  have entered : run.Reaches ⟨8, .executeAll body, blockEntered run.first⟩ := .enter start .block
  have reached := (entered.enter .firstStatement).enter .variable
  have recorded : (resolve [.block body]).1[(⟨1, a⟩ : Reference).id]? = some 0 := rfl
  have depths : run.first.depths = (resolve [.block body]).1 := by
    change (resolve (Program.read source).statements).1 = _
    rw [read]
  have clean : (resolve (Program.read source).statements).2 = [] := by
    rw [read]
    rfl
  have given : evaluate 5 (.literal .nil) (blockEntered run.first) = .ok .nil _ := rfl
  have faultless : (Program.read source).faults = [] := by rw [read]
  refine ⟨faultless, clean, _, _, _, _, _, _, reached, given, ?_, ?_⟩
  · rw [read]
    exact recorded
  · have kept : (blockEntered run.first).depths[(⟨1, a⟩ : Reference).id]? = some 0 := by
      change run.first.depths[_]? = _
      rw [depths]
      exact recorded
    have got : (get : Eval Machine) (blockEntered run.first) = .ok _ _ := rfl
    unfold assign
    rw [bind_of_ok got, kept]
    rfl

end LoxLang.Eval
