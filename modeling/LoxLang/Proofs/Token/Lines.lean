import LoxLang.Proofs.Token.Stepping

/-! Lines. The line of an item is the line on which its text ends: one more than there are line feeds in
the text that has been scanned up to there. So a text that stands behind another one and a line feed
yields its own items, on lines that are later by those of the first text. -/
namespace LoxLang

deriving instance DecidableEq for Item

def Item.line : Item → Nat
  | .token t => t.line
  | .fault e => e.line

/-- With this item everything has been scanned: it is the end marker, or a fault that takes all of the
text that is left. -/
def Item.TakesAll : Item → Prop
  | .token t => t.kind = .endOfFile
  | .fault e => e.cause.Unterminated

namespace Scan

variable {text passed : List Char} {s : Scan}

/-- These characters of the text have been scanned, and their line feeds counted. -/
structure Passed (text passed : List Char) (s : Scan) : Prop where
  whole : text = passed ++ s.ahead
  line : s.line = 1 + passed.count '\n'
  ended : s.ended = true → s.ahead = []

theorem passed_start (source : String) : Passed source.toList [] (.start source) :=
  ⟨rfl, rfl, nofun⟩

/-- What is not closed takes all of the text that is left. -/
theorem piece_rest_of_unterminated {c : Char} {rest : List Char} {cause : LexicalError.Cause}
    (found : (piece c rest).found = .fault cause) (unclosed : cause.Unterminated) :
    (piece c rest).rest = [] := by
  have fits := piece_fits c rest
  revert found fits
  generalize piece c rest = cut
  intro found fits
  cases fits with
  | skipped | taken => cases found
  | givenUp gives =>
    cases found
    cases gives with
    | comment | string => rfl
    | character => obtain same | same := unclosed <;> cases same

/-- A piece is passed with its line feeds. -/
theorem Passed.piece {c : Char} {rest : List Char} (here : Passed text passed s)
    (ahead : s.ahead = c :: rest) : Passed text (passed ++ (piece c rest).consumed)
      ⟨(piece c rest).rest, s.line + (piece c rest).consumed.count '\n', false⟩ where
  whole := by rw [here.whole, ahead, List.append_assoc, piece_append]
  line := by rw [here.line, List.count_append, Nat.add_assoc]
  ended := nofun

/-- The scan has passed the text of an item that it gives, and is on the item's line. -/
theorem passed_next? {s after : Scan} {item : Item} (given : s.next? = some (item, after)) :
    ∀ passed : List Char, Passed text passed s → ∃ taken, Passed text (passed ++ taken) after ∧
      item.line = after.line ∧ (∀ t, item = .token t → t.lexeme.toList <:+ taken) ∧
      (item.TakesAll → after.ahead = []) := by
  fun_induction Scan.next? s with
  | case1 => cases given
  | case2 s opened nothing =>
    cases given
    intro passed here
    refine ⟨[], ?_, rfl, ?_, fun _ => nothing⟩
    · rw [List.append_nil]
      exact ⟨here.whole, here.line, fun _ => nothing⟩
    · rintro t ⟨⟩
      exact List.nil_suffix
  | case3 s opened c rest ahead p next blank ih =>
    intro passed here
    obtain ⟨taken, behind, line, ends, all⟩ := ih given _ (here.piece ahead)
    rw [List.append_assoc] at behind
    exact ⟨_, behind, line, fun t same => (ends t same).trans (List.suffix_append _ _), all⟩
  | case4 s opened c rest ahead p next kind found =>
    intro passed here
    simp only [Option.some.injEq, Prod.mk.injEq] at given
    obtain ⟨rfl, rfl⟩ := given
    refine ⟨p.consumed, here.piece ahead, rfl, ?_, fun marker => absurd marker (piece_ne_end found)⟩
    rintro t ⟨⟩
    rw [String.toList_ofList]
  | case5 s opened c rest ahead p next cause found =>
    intro passed here
    simp only [Option.some.injEq, Prod.mk.injEq] at given
    obtain ⟨rfl, rfl⟩ := given
    refine ⟨p.consumed, here.piece ahead, rfl, ?_, piece_rest_of_unterminated found⟩
    rintro t ⟨⟩

theorem next?_of_items {s : Scan} {item : Item} {later : List Item} (given : s.items = item :: later) :
    ∃ after, s.next? = some (item, after) ∧ after.items = later := by
  cases next : s.next? with
  | none =>
    rw [items_of_none next] at given
    cases given
  | some pair =>
    obtain ⟨first, after⟩ := pair
    rw [items_of_some next] at given
    obtain ⟨rfl, rfl⟩ := List.cons.inj given
    exact ⟨after, rfl, rfl⟩

/-- The items that a scan has yet to give are on lines of the text. -/
theorem Passed.line_within {items : List Item} (here : Passed text passed s)
    (given : s.items = items) {item : Item} (member : item ∈ items) :
    1 ≤ item.line ∧ item.line ≤ 1 + text.count '\n' := by
  induction items generalizing s passed with
  | nil => cases member
  | cons first later ih =>
    obtain ⟨after, next, rest⟩ := next?_of_items given
    obtain ⟨taken, behind, line, _⟩ := passed_next? next _ here
    rcases List.mem_cons.mp member with rfl | member
    · have counted := congrArg (List.count '\n') behind.whole
      rw [List.count_append] at counted
      rw [line, behind.line]
      omega
    · exact ih behind rest member

end Scan

/-- Tokens and lexical faults are on lines of the text. -/
theorem scan_lines_within (source : String) :
    (∀ t ∈ (scan source).1, 1 ≤ t.line ∧ t.line ≤ 1 + source.toList.count '\n') ∧
      ∀ e ∈ (scan source).2, 1 ≤ e.line ∧ e.line ≤ 1 + source.toList.count '\n' := by
  have within (item : Item) (member : item ∈ (Scan.start source).items) :=
    (Scan.passed_start source).line_within rfl member
  constructor
  · intro t member
    obtain ⟨item, among, same⟩ := List.mem_filterMap.mp member
    cases item with
    | token t' =>
      cases same
      exact within _ among
    | fault e => cases same
  · intro e member
    obtain ⟨item, among, same⟩ := List.mem_filterMap.mp member
    cases item with
    | token t => cases same
    | fault e' =>
      cases same
      exact within _ among

namespace Bytewise
open Text Scan

variable {text : String} {passed : List Char} {s middle last : Scanner}

theorem Yields.concat {items : List Item} {item : Item} (yields : Yields text s items middle)
    (called : next text middle = .ok (some item) last) : Yields text s (items ++ [item]) last := by
  induction yields with
  | nothing => exact .item called .nothing
  | item first _ ih => exact .item first (ih called)

/-- The bytes that the scanner has passed are those of the characters that have been scanned. -/
theorem Represents.take {scan : Scan} (represents : Represents text scan s)
    (here : Passed text.toList passed scan) : (source text).take s.curr = bytes passed := by
  obtain ⟨_, front, at_⟩ | ⟨ended, behind⟩ := represents.place
  · obtain rfl : front = passed := List.append_cancel_right (at_.whole.symm.trans here.whole)
    rw [at_.source, at_.curr, List.take_left]
  · have whole := here.whole
    rw [here.ended ended, List.append_nil] at whole
    rw [behind, List.take_of_length_le (Nat.le_succ _), source_eq, whole]

/-- The scanner gives the first items of a scan, and stands where the scan does behind them. -/
theorem Represents.yields_first {scan : Scan} {before later : List Item}
    (represents : Represents text scan s) (here : Passed text.toList passed scan)
    (given : scan.items = before ++ later) :
    ∃ scan' s' passed', Yields text s before s' ∧ Represents text scan' s' ∧
      Passed text.toList passed' scan' ∧ scan'.items = later := by
  induction before generalizing scan s passed with
  | nil => exact ⟨scan, s, passed, .nothing, represents, here, given⟩
  | cons first before ih =>
    obtain ⟨after, next, rest⟩ := next?_of_items given
    have gives := next_represents represents
    rw [next] at gives
    obtain ⟨middle, called, represents, _⟩ := gives
    obtain ⟨taken, behind, _⟩ := passed_next? next _ here
    obtain ⟨scan', s', passed', yields, others⟩ := ih represents behind rest
    exact ⟨scan', s', passed', .item called yields, others⟩

/-- Each item is on the line that the line feeds tell among the bytes that have been passed when it is
given, the last of which are the text of a token. The end marker, and the fault of a string or a block
comment that nothing closes, are on the last line of the text. -/
theorem lines_count_line_feeds (text : String) {before later : List Item} {item : Item}
    (given : (Scan.start text).items = before ++ item :: later) :
    ∃ s, Yields text .new (before ++ [item]) s ∧
      item.line = 1 + ((source text).take s.curr).count '\n'.toUInt8 ∧
      (∀ t, item = .token t → bytes t.lexeme.toList <:+ (source text).take s.curr) ∧
      (item.TakesAll → item.line = 1 + (source text).count '\n'.toUInt8) := by
  obtain ⟨scan, s, passed, yields, represents, here, rest⟩ :=
    (represents_start text).yields_first (passed_start text) given
  obtain ⟨after, next, _⟩ := next?_of_items rest
  have gives := next_represents represents
  rw [next] at gives
  obtain ⟨last, called, represents, _⟩ := gives
  obtain ⟨taken, behind, line, ends, all⟩ := passed_next? next _ here
  have took := represents.take behind
  refine ⟨last, yields.concat called, ?_, ?_, ?_⟩
  · rw [took, count_bytes (by decide), line, behind.line]
  · rintro t same
    obtain ⟨earlier, rfl⟩ := ends t same
    rw [took, bytes_append, bytes_append, ← List.append_assoc]
    exact List.suffix_append _ _
  · intro taking
    have whole := behind.whole
    rw [all taking, List.append_nil] at whole
    rw [source_eq, count_bytes (by decide), whole, line, behind.line]

/-- A string is on the line of its closing quote, and a comment that nothing closes on the last line of
the text. -/
theorem string_on_line_of_closing_quote :
    let text := "\"a\nb\" /*\n"
    let string : Item := .token ⟨.string "a\nb", "\"a\nb\"", 2⟩
    let comment : Item := .fault ⟨.unterminatedComment, 3⟩
    let stop : Item := .token (.endOfFile 3)
    (Scan.start text).items = [] ++ string :: [comment, stop] ∧
      (Scan.start text).items = [string] ++ comment :: [stop] ∧
      (∃ s, Yields text .new [string] s ∧ 2 = 1 + ((source text).take s.curr).count '\n'.toUInt8) ∧
      3 = 1 + (source text).count '\n'.toUInt8 := by
  intro text string comment stop
  have given : (Scan.start text).items = [string, comment, stop] := by decide +kernel
  obtain ⟨s, yields, line, -⟩ := @lines_count_line_feeds text [] _ _ given
  obtain ⟨_, _, _, _, last⟩ := @lines_count_line_feeds text [string] _ _ given
  exact ⟨given, given, ⟨s, yields, line⟩, last (.inr rfl)⟩

/-- Two texts that are joined by a line feed yield, item by item, what the first one yields before its
end marker and then what the second one does, on lines that are later by one and the line feeds of the
first. So the tokens are those of the first without its end marker and then those of the second, and the
faults are those of the first and then those of the second. The first text must not end in a string or a
block comment that is not closed. -/
theorem joined_texts_scan_in_turn (first second : String)
    (closed : ∀ e ∈ (scan first).2,
      e.cause ≠ .unterminatedString ∧ e.cause ≠ .unterminatedComment) :
    let joined := first ++ "\n" ++ second
    let later := (· + (1 + first.toList.count '\n'))
    ∃ own line, (scan first).1 = own ++ [.endOfFile line] ∧ (∀ t ∈ own, t.kind ≠ .endOfFile) ∧
      (scan joined).1 = own ++ (scan second).1.map (Token.relined later) ∧
      (scan joined).2 = (scan first).2 ++ (scan second).2.map (LexicalError.relined later) ∧
      ∃ last, Yields joined .new ((Scan.start first).items.dropLast ++
        (Scan.start second).items.map (Item.relined later)) last := by
  intro joined later
  have ended (e : LexicalError) (member : e ∈ (scan first).2) : ¬ e.cause.Unterminated :=
    not_or.mpr (closed e member)
  have same : (· + (first.toList.count '\n' + 1)) = later := by
    funext line
    simp only [later, Nat.add_comm 1]
  have scanned := scan_join first second ended
  have items := Scan.start_join first second ended
  rw [same] at items
  simp only [same] at scanned
  obtain ⟨own, tokens, single⟩ := scan_end first
  obtain ⟨last, yields, _⟩ := (represents_start joined).yields
  refine ⟨own, _, tokens, fun t member => (single t member).1, ?_, ?_, last, items ▸ yields⟩
  · rw [scanned, tokens, List.dropLast_concat]
  · rw [scanned]

/-- A slash at the end of a line and one at the beginning of the next do not begin a comment. -/
theorem slashes_on_two_lines :
    let slash (line : Nat) : Token := ⟨.symbol .slash, "/", line⟩
    (∀ e ∈ (scan "a /").2, e.cause ≠ .unterminatedString ∧ e.cause ≠ .unterminatedComment) ∧
      (scan ("a /" ++ "\n" ++ "/ #")).1 = [⟨.identifier, "a", 1⟩, slash 1, slash 2, .endOfFile 2] ∧
      (scan ("a /" ++ "\n" ++ "/ #")).2 = [⟨.unexpectedCharacter '#', 2⟩] := by
  intro slash
  have first : scan "a /" = ([⟨.identifier, "a", 1⟩, slash 1, .endOfFile 1], []) := by decide +kernel
  have second : scan "/ #" = ([slash 1, .endOfFile 1], [⟨.unexpectedCharacter '#', 1⟩]) := by
    decide +kernel
  have closed : ∀ e ∈ (scan "a /").2,
      e.cause ≠ .unterminatedString ∧ e.cause ≠ .unterminatedComment := by
    rw [first]
    nofun
  obtain ⟨own, line, tokens, _, joined, faults, _⟩ := joined_texts_scan_in_turn "a /" "/ #" closed
  rw [first] at tokens faults
  rw [second] at joined faults
  obtain rfl : own = [⟨.identifier, "a", 1⟩, slash 1] := by
    have front := congrArg List.dropLast tokens
    rw [List.dropLast_concat] at front
    exact front.symm
  exact ⟨closed, joined, faults⟩

end Bytewise
end LoxLang
