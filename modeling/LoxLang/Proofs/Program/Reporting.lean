import LoxLang.Proofs.Grammar.Finding
import LoxLang.Proofs.Output.Truncation
import LoxLang.Proofs.Program.Join
import LoxLang.Proofs.Scope.Blaming
import LoxLang.Proofs.Text.Encoding
import LoxLang.Proofs.Token.Respelling

/-! What is written about a program that is refused. Each diagnostic is written with a line feed behind it,
and the texts of the messages have none; but a message quotes the token at which the fault was found, and
the one token that can go on over several lines is a string literal. -/
namespace LoxLang
open Grammar

/-- How often a text goes on on a new line. -/
def lineFeeds (text : String) : Nat := text.toList.count '\n'

@[simp] theorem lineFeeds_append (first second : String) :
    lineFeeds (first ++ second) = lineFeeds first + lineFeeds second := by
  simp only [lineFeeds, String.toList_append, List.count_append]

@[simp] theorem lineFeeds_toString (n : Nat) : lineFeeds (toString n) = 0 := by
  rw [lineFeeds, Nat.toString_eq_ofList_toDigits, String.toList_ofList, List.count_eq_zero]
  intro member
  have digit := Nat.isDigit_of_mem_toDigits (by decide : 0 < 10) (Nat.le_refl 10) member
  exact absurd digit (by decide)

theorem lineFeeds_eq_zero_iff {text : String} : lineFeeds text = 0 ↔ '\n' ∉ text.toList :=
  List.count_eq_zero

/-- The line feeds of a text are those among its bytes. -/
theorem lineFeeds_bytes (text : String) : text.toUTF8.data.toList.count '\n'.toUInt8 = lineFeeds text := by
  change text.toByteArray.data.toList.count '\n'.toUInt8 = _
  rw [Text.toByteArray_eq, List.data_toByteArray, List.toList_toArray]
  exact Text.count_bytes (by decide) _

section Messages

theorem SyntaxError.NameRole.text_flat (role : NameRole) : lineFeeds role.text = 0 := by
  cases role with
  | ofRoutine r => cases r <;> rfl
  | _ => rfl

theorem SyntaxError.Place.text_flat (place : Place) : lineFeeds place.text = 0 := by
  cases place with
  | afterRoutineName r | beforeRoutineBody r => cases r <;> rfl
  | _ => rfl

theorem Symbol.spelling_flat (s : Symbol) : lineFeeds (String.ofList s.spelling) = 0 := by cases s <;> rfl

/-- The message of a syntax fault is on one line. -/
theorem SyntaxError.Cause.message_flat (cause : Cause) : lineFeeds cause.message = 0 := by
  cases cause with
  | missingName role =>
    have flat := role.text_flat
    simp only [message, lineFeeds_append, flat]
    rfl
  | missingSymbol s place =>
    have spelling := s.spelling_flat
    have flat := place.text_flat
    simp only [message, lineFeeds_append, spelling, flat]
    rfl
  | _ => rfl

theorem ScopeError.Cause.message_flat (cause : Cause) : lineFeeds cause.message = 0 := by cases cause <;> rfl

/-- A message at a token has the line feeds of the token; the end marker is not quoted. -/
theorem Token.lineFeeds_report {t : Token} {message : String} (flat : lineFeeds message = 0)
    (ended : t.kind = .endOfFile → t.lexeme = "") : lineFeeds (t.report message) = lineFeeds t.lexeme := by
  have located : lineFeeds t.location = lineFeeds t.lexeme := by
    unfold Token.location
    split
    · next marker =>
      rw [ended marker]
      rfl
    · simp only [lineFeeds_append]
      change 0 + lineFeeds t.lexeme + 0 = _
      omega
  simp only [Token.report, lineFeeds_append, lineFeeds_toString, located, flat]
  change 0 + 0 + 0 + lineFeeds t.lexeme + 0 + 0 = _
  omega

end Messages

section Tokens

variable {source : String} {t : Token}

theorem scan_endOfFile (source : String) : ∃ t ∈ (scan source).1, t.kind = .endOfFile := by
  obtain ⟨tokens, whole, _⟩ := scan_end source
  exact ⟨.endOfFile _, whole ▸ List.mem_append_right _ List.mem_cons_self, rfl⟩

/-- The end marker has no text. -/
theorem scan_ended (member : t ∈ (scan source).1) (marker : t.kind = .endOfFile) : t.lexeme = "" := by
  obtain ⟨tokens, whole, single⟩ := scan_end source
  rw [whole] at member
  obtain inside | last := List.mem_append.mp member
  · exact absurd marker (single t inside).1
  · rw [List.mem_singleton.mp last]
    rfl

/-- Only a string literal goes on on a new line. -/
theorem string_of_lineFeed (member : t ∈ (scan source).1) (broken : lineFeeds t.lexeme ≠ 0) :
    ∃ text, t.kind = .string text := by
  have within : '\n' ∈ t.lexeme.toList := by
    rw [Ne, lineFeeds_eq_zero_iff] at broken
    exact Classical.not_not.mp broken
  have inside : t.kind ≠ .endOfFile := by
    intro marker
    rw [scan_ended member marker] at within
    exact absurd within (by decide)
  exact (scan_lexeme member inside).string_of_blank (by decide : isBlank '\n' = true) within

/-- Blanks are skipped, so a line feed is never given up. -/
theorem Scan.GivenUp.message_flat {cause : LexicalError.Cause} {front rest : List Char}
    (gives : GivenUp cause front rest) : lineFeeds cause.message = 0 := by
  cases gives with
  | comment => rfl
  | string => rfl
  | @character c _ unblank =>
    have other : c ≠ '\n' := by
      intro same
      rw [same] at unblank
      exact absurd unblank (by decide)
    have single : lineFeeds c.toString = 0 := by
      rw [lineFeeds_eq_zero_iff, Char.toString_eq_singleton, String.toList_singleton, List.mem_singleton]
      exact other.symm
    have text : lineFeeds "Unexpected character: " = 0 := rfl
    calc lineFeeds ("Unexpected character: " ++ c.toString)
      _ = lineFeeds "Unexpected character: " + lineFeeds c.toString := lineFeeds_append _ _
      _ = 0 := by rw [text, single]

theorem Scan.Tokenized.fault_flat {text : List Char} {line : Nat} {items : List Item}
    (tokenized : Tokenized text line items) {e : LexicalError} (member : .fault e ∈ items) :
    lineFeeds e.cause.message = 0 := by
  induction tokenized with
  | ended => cases List.mem_singleton.mp member
  | skip _ _ ih => exact ih member
  | take _ _ _ ih =>
    obtain same | later := List.mem_cons.mp member
    · cases same
    · exact ih later
  | giveUp gives _ ih =>
    obtain same | later := List.mem_cons.mp member
    · cases same
      exact gives.message_flat
    · exact ih later

end Tokens

namespace Diagnostic

variable {source : String}

theorem lexical_flat {e : LexicalError} (member : e ∈ (scan source).2) :
    lineFeeds (Diagnostic.lexical e).text = 0 := by
  obtain ⟨item, among, same⟩ := List.mem_filterMap.mp member
  have message : lineFeeds e.cause.message = 0 := by
    cases item with
    | token => cases same
    | fault =>
      cases same
      exact (Scan.items_tokenized source.toList 1).fault_flat among
  simp only [text, LexicalError.text, lineFeeds_append, lineFeeds_toString, message]
  rfl

/-- What is said of a syntax fault has the line feeds of the token at which it was found. -/
theorem grammar_lineFeeds {e : SyntaxError} (member : e ∈ (readProgram (scan source).1).2) :
    lineFeeds (Diagnostic.grammar e).text = lineFeeds e.found.lexeme :=
  Token.lineFeeds_report e.cause.message_flat
    (scan_ended (readProgram_found (scan_endOfFile source) member))

theorem scope_flat {e : ScopeError} (member : e ∈ (Scope.resolve (readProgram (scan source).1).1).2) :
    lineFeeds (Diagnostic.scope e).text = 0 := by
  obtain ⟨among, word⟩ := Scope.resolve_found (scan source).1 e member
  have text := Token.lineFeeds_report e.cause.message_flat (scan_ended among)
  refine text.trans (Classical.byContradiction fun broken => ?_)
  obtain ⟨_, string⟩ := string_of_lineFeed among broken
  rcases word with name | ⟨_, keyword⟩
  · rw [string] at name
    cases name
  · rw [string] at keyword
    cases keyword

end Diagnostic

/-- Diagnostics as they are written. -/
def Diagnostic.lines (ds : List Diagnostic) : String := String.join (ds.map fun d => d.text ++ "\n")

theorem Diagnostic.lineFeeds_lines (ds : List Diagnostic) :
    lineFeeds (lines ds) = ds.length + (ds.map fun d => lineFeeds d.text).sum := by
  induction ds with
  | nil => rfl
  | cons d rest ih =>
    have feed : lineFeeds "\n" = 1 := rfl
    rw [lines, List.map_cons, String.join_cons, lineFeeds_append, lineFeeds_append, feed]
    rw [lines] at ih
    rw [ih, List.map_cons, List.sum_cons, List.length_cons]
    omega

theorem Sink.write_written {s after : Sink} {text : String} (taken : s.write text = (true, after)) :
    after.written = s.written ++ text.toUTF8 := by
  cases limit : s.capacity with
  | none =>
    rw [write_unlimited limit] at taken
    cases taken
    rfl
  | some capacity =>
    simp only [write, limit] at taken
    split at taken
    · cases taken
      rfl
    · cases taken

/-- A sink that has taken some diagnostics has taken all of their text. -/
theorem Sink.report_written {s after : Sink} {ds : List Diagnostic} (taken : s.report ds = (true, after)) :
    after.written = s.written ++ (Diagnostic.lines ds).toUTF8 := by
  induction ds generalizing s with
  | nil =>
    cases taken
    exact ByteArray.append_empty.symm
  | cons d rest ih =>
    unfold report at taken
    split at taken
    · next middle wrote =>
      have appended : (Diagnostic.lines (d :: rest)).toUTF8 =
          (d.text ++ "\n").toUTF8 ++ (Diagnostic.lines rest).toUTF8 := by
        rw [Diagnostic.lines, List.map_cons, String.join_cons]
        exact String.toByteArray_append
      rw [ih taken, write_written wrote, appended, ByteArray.append_assoc]
    · cases taken

/-- What a refused program is refused for: all that is wrong with its form, or else with its scopes. -/
def Program.grounds (program : Program) : List Diagnostic :=
  if program.faults = [] then (Scope.resolve program.statements).2.map .scope else program.faults

namespace Program

variable {program : Program} {fuel : Nat} {clock : Nat → Float} {out err : Sink}

/-- A program is refused on grounds, and accepted if there are none. -/
theorem grounds_eq_nil_iff : program.grounds = [] ↔ program.Accepted := by
  unfold Program.grounds
  split
  · next read => exact ⟨fun none => ⟨read, List.map_eq_nil_iff.mp none⟩,
      fun accepted => List.map_eq_nil_iff.mpr accepted.resolved⟩
  · next faulty => exact ⟨fun none => absurd none faulty, fun accepted => absurd accepted.read faulty⟩

theorem verdict_of_grounds (some : program.grounds ≠ []) :
    program.verdict fuel clock out = ⟨.refused, out, program.grounds⟩ := by
  unfold Program.grounds at some ⊢
  unfold verdict
  cases found : program.faults with
  | cons d rest => rw [if_neg (List.cons_ne_nil d rest)]
  | nil =>
    rw [if_pos found] at some
    rw [if_pos rfl]
    rcases resolved : Scope.resolve program.statements with ⟨depths, _ | ⟨e, rest⟩⟩
    · rw [resolved] at some
      exact absurd rfl some
    · rfl

/-- A program that is refused is not run, and what is written about it are the grounds. -/
theorem run_of_grounds (some : program.grounds ≠ []) :
    program.run fuel clock out err = conclude out err .refused program.grounds := by
  rw [run_eq_outcome, verdict_of_grounds some]
  rfl

theorem not_refused (accepted : program.Accepted) :
    (program.run fuel clock out err).ending.hadError = false := by
  obtain ⟨depths, resolved⟩ := accepted.resolves
  rw [run_of_resolved program accepted.read resolved]
  have concluded (m : Machine) (e : RuntimeError) :
      (conclude m.output err .stopped [.runtime e]).ending.hadError = false := by
    unfold conclude
    split <;> rfl
  rcases Eval.interpret fuel program.statements (.start depths out clock) with _ | ⟨e | _ | _, m⟩
  · rfl
  · exact concluded m e
  · rfl
  · rfl

/-- A run with an error has had grounds, and has written all of them. -/
theorem written_of_hadError (error : (program.run fuel clock out err).ending.hadError = true) :
    program.grounds ≠ [] ∧ (program.run fuel clock out err).out = out ∧
      (program.run fuel clock out err).err.written =
        err.written ++ (Diagnostic.lines program.grounds).toUTF8 := by
  have some : program.grounds ≠ [] := by
    intro none
    rw [not_refused (grounds_eq_nil_iff.mp none)] at error
    cases error
  rw [run_of_grounds some] at error ⊢
  refine ⟨some, conclude_out out err .refused _, ?_⟩
  unfold conclude at error ⊢
  split at error
  · next reported => exact Sink.report_written reported
  · cases error

/-- A run with an error has been refused, so nothing has stopped it while it ran. -/
theorem not_both : ¬ ((program.run fuel clock out err).ending.hadError = true ∧
    (program.run fuel clock out err).ending.hadRuntimeError = true) := by
  rintro ⟨before, during⟩
  rw [run_of_grounds (written_of_hadError before).1, conclude] at during
  split at during <;> cases during

/-- Where diagnostics can be written, a program is run without error exactly if it is accepted. -/
theorem hadError_iff (unlimited : err.capacity = none) :
    (program.run fuel clock out err).ending.hadError = true ↔ program.grounds ≠ [] := by
  refine ⟨fun error => (written_of_hadError error).1, fun some => ?_⟩
  rw [run_of_grounds some, conclude, ← Prod.eta (err.report _), (err.report_unlimited unlimited _).1]
  rfl

end Program

section Refused

variable (source : String)

/-- The grounds for refusing a text: its lexical faults and then its syntax faults, or those of its scopes. -/
theorem grounds_read : (Program.read source).grounds =
    let syntactic := readProgram (scan source).1
    if (scan source).2 = [] ∧ syntactic.2 = [] then (Scope.resolve syntactic.1).2.map .scope
    else (scan source).2.map .lexical ++ syntactic.2.map .grammar := by
  have clean : (Program.read source).faults = [] ↔
      (scan source).2 = [] ∧ (readProgram (scan source).1).2 = [] := by simp [Program.read_eq]
  simp only [Program.grounds, clean]
  rfl

/-- Of the grounds, the syntax faults alone go on on new lines, where their tokens do. -/
theorem lineFeeds_grounds : ((Program.read source).grounds.map fun d => lineFeeds d.text).sum =
    ((readProgram (scan source).1).2.map fun e => lineFeeds e.found.lexeme).sum := by
  have flat {α : Type} {faults : List α} {f : α → Diagnostic}
      (all : ∀ e ∈ faults, lineFeeds (f e).text = 0) :
      ((faults.map f).map fun d => lineFeeds d.text).sum = 0 := by
    apply List.sum_eq_zero
    intro n member
    rw [List.map_map] at member
    obtain ⟨e, among, rfl⟩ := List.mem_map.mp member
    exact all e among
  rw [grounds_read]
  dsimp only
  split
  · next clean =>
    rw [flat fun e member => Diagnostic.scope_flat member, clean.2]
    rfl
  · rw [List.map_append, List.sum_append, flat fun e member => Diagnostic.lexical_flat member, Nat.zero_add,
      List.map_map]
    exact congrArg List.sum (List.map_congr_left fun e member => Diagnostic.grammar_lineFeeds member)

/-- No run has an error both before and while it runs. If it has one before, nothing is printed, and the
faults of the first faulty stages are written in order, each with a line feed behind it. They are on a line
each but for syntax faults found at a string literal that goes on on a new line. -/
theorem refused_runs_report_grounds (fuel : Nat) (clock : Nat → Float) (out err : Sink) :
    let outcome := run fuel clock source out err
    let lexical := (scan source).2
    let syntactic := (readProgram (scan source).1).2
    let grounds : List Diagnostic :=
      if lexical = [] ∧ syntactic = [] then
        (Scope.resolve (readProgram (scan source).1).1).2.map .scope
      else lexical.map .lexical ++ syntactic.map .grammar
    ¬ (outcome.ending.hadError = true ∧ outcome.ending.hadRuntimeError = true) ∧
      (err.capacity = none → (outcome.ending.hadError = true ↔ grounds ≠ [])) ∧
      (outcome.ending.hadError = true → outcome.out = out ∧
        outcome.err.written = err.written ++ (String.join (grounds.map fun d => d.text ++ "\n")).toUTF8 ∧
        outcome.err.written.data.toList.count '\n'.toUInt8 =
          err.written.data.toList.count '\n'.toUInt8 + grounds.length +
            (syntactic.map fun e => e.found.lexeme.toList.count '\n').sum) ∧
      ∀ e ∈ syntactic, '\n' ∈ e.found.lexeme.toList →
        e.found ∈ (scan source).1 ∧ ∃ text, e.found.kind = .string text := by
  intro outcome lexical syntactic grounds
  have same : (Program.read source).grounds = grounds := grounds_read source
  refine ⟨Program.not_both, fun unlimited => ?_, fun error => ?_, fun e member broken => ?_⟩
  · rw [← same]
    exact Program.hadError_iff unlimited
  · obtain ⟨_, silent, written⟩ := Program.written_of_hadError error
    rw [same] at written
    refine ⟨silent, written, ?_⟩
    have fed := Diagnostic.lineFeeds_lines grounds
    rw [← same, lineFeeds_grounds, same] at fed
    rw [show outcome.err.written = _ from written, ByteArray.data_append, Array.toList_append,
      List.count_append, lineFeeds_bytes, fed, Nat.add_assoc]
    rfl
  · have among := readProgram_found (scan_endOfFile source) member
    exact ⟨among, string_of_lineFeed among fun flat => lineFeeds_eq_zero_iff.mp flat broken⟩

/-- A string literal over two lines where a name is wanted: one diagnostic and two line feeds. -/
theorem string_quoted_on_two_lines :
    let source := "var \"a\nb\";"
    let outcome := run 1 (fun _ => 0) source (.ofCapacity none) (.ofCapacity none)
    outcome.ending.hadError = true ∧ (Program.read source).faults.length = 1 ∧
      outcome.err.written = "[line 2] Error at '\"a\nb\"': Expect variable name.\n".toUTF8 ∧
      outcome.err.written.data.toList.count '\n'.toUInt8 = 2 := by
  decide +kernel

end Refused

end LoxLang
