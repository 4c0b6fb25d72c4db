import LoxLang.Proofs.Token.Spelling

/-! Scanning texts that are joined by a line feed. No lexeme goes on beyond a line feed but a string or
a block comment that is not closed, so the pieces of the first text are the same with more text behind
it. What follows is scanned as a text of its own, on later lines. -/
namespace LoxLang

/-- The token with another line. -/
def Token.relined (line : Nat → Nat) (t : Token) : Token := { t with line := line t.line }

def LexicalError.relined (line : Nat → Nat) (e : LexicalError) : LexicalError :=
  { e with line := line e.line }

def Item.relined (line : Nat → Nat) : Item → Item
  | .token t => .token (t.relined line)
  | .fault e => .fault (e.relined line)

/-- The fault of a text that ends too early. -/
def LexicalError.Cause.Unterminated (cause : LexicalError.Cause) : Prop :=
  cause = .unterminatedString ∨ cause = .unterminatedComment

namespace Scan

section Pieces

variable {c : Char} {text more : List Char} {p : Char → Bool}

/-- The piece with more text behind it. -/
def Piece.before (piece : Piece) (more : List Char) : Piece := { piece with rest := piece.rest ++ more }

theorem takeWhile_append_of_stops (stops : p '\n' = false) (text more : List Char) :
    (text ++ '\n' :: more).takeWhile p = text.takeWhile p ∧
      (text ++ '\n' :: more).dropWhile p = text.dropWhile p ++ '\n' :: more := by
  induction text with
  | nil => simp [stops]
  | cons d text ih =>
    cases passed : p d with
    | true => simp [passed, ih]
    | false => simp [passed]

theorem takeWhile_append_of_dropWhile {d : Char} {rest : List Char}
    (dropped : text.dropWhile p = d :: rest) (more : List Char) :
    (text ++ more).takeWhile p = text.takeWhile p ∧ (text ++ more).dropWhile p = d :: rest ++ more := by
  induction text with
  | nil => cases dropped
  | cons d' text ih =>
    cases passed : p d' with
    | true =>
      rw [List.dropWhile_cons_of_pos passed] at dropped
      simpa [passed] using ih dropped
    | false =>
      rw [List.dropWhile_cons_of_neg (by simp [passed])] at dropped
      rw [← dropped]
      simp [passed]

theorem throughCommentEnd?_before {inside after : List Char}
    (found : throughCommentEnd? text = some (inside, after)) (more : List Char) :
    throughCommentEnd? (text ++ more) = some (inside, after ++ more) := by
  fun_induction throughCommentEnd? text generalizing inside with
  | case1 rest => cases found; rfl
  | case2 c rest other ih =>
    obtain ⟨⟨body, tail⟩, inner, pair⟩ := Option.map_eq_some_iff.1 found
    cases pair
    cases rest with
    | nil => cases inner
    | cons d rest =>
      have still : ∀ after, c = '*' → d :: rest ++ more = '/' :: after → False := by
        rintro _ rfl same
        obtain ⟨rfl, -⟩ := List.cons.inj same
        exact other rest rfl rfl
      rw [List.cons_append, throughCommentEnd?, ih inner]
      · rfl
      · exact still
  | case3 => cases found

theorem lineComment_before (text more : List Char) :
    lineComment (text ++ '\n' :: more) = (lineComment text).before ('\n' :: more) := by
  obtain ⟨taken, dropped⟩ := takeWhile_append_of_stops (p := (· ≠ '\n')) (by simp) text more
  simp only [lineComment, Piece.before, taken, dropped]

theorem blockComment_before (closed : (blockComment text).found ≠ .fault .unterminatedComment)
    (more : List Char) : blockComment (text ++ more) = (blockComment text).before more := by
  unfold blockComment at closed ⊢
  cases found : throughCommentEnd? text with
  | none =>
    rw [found] at closed
    exact absurd rfl closed
  | some split => rw [throughCommentEnd?_before found]; rfl

theorem stringPiece_before (closed : (stringPiece text).found ≠ .fault .unterminatedString)
    (more : List Char) : stringPiece (text ++ more) = (stringPiece text).before more := by
  unfold stringPiece at closed ⊢
  cases dropped : text.dropWhile (· ≠ '"') with
  | nil =>
    simp only [dropped] at closed
    exact absurd rfl closed
  | cons quote rest =>
    obtain ⟨taken, dropped'⟩ := takeWhile_append_of_dropWhile dropped more
    simp only [taken, dropped', List.cons_append, Piece.before]

theorem numberPiece_before (c : Char) (text more : List Char) :
    numberPiece c (text ++ '\n' :: more) = (numberPiece c text).before ('\n' :: more) := by
  obtain ⟨taken, dropped⟩ := takeWhile_append_of_stops (p := isDigit) (by decide) text more
  unfold numberPiece
  simp only [taken, dropped]
  generalize text.dropWhile isDigit = behind
  cases behind with
  | nil => rfl
  | cons point rest =>
    by_cases fraction : point = '.'
    · subst fraction
      cases rest with
      | nil => rfl
      | cons d rest =>
        obtain ⟨taken', dropped'⟩ := takeWhile_append_of_stops (p := isDigit) (by decide) rest more
        simp only [List.cons_append, taken', dropped']
        split <;> rfl
    · simp [fraction, Piece.before]

theorem wordPiece_before (c : Char) (text more : List Char) :
    wordPiece c (text ++ '\n' :: more) = (wordPiece c text).before ('\n' :: more) := by
  obtain ⟨taken, dropped⟩ := takeWhile_append_of_stops (p := isNamePart) (by decide) text more
  simp only [wordPiece, Piece.before, taken, dropped]

theorem singlePiece_before (c : Char) (text more : List Char) :
    singlePiece c (text ++ more) = (singlePiece c text).before more := by
  unfold singlePiece
  split <;> rfl

/-- No symbol has a line feed in it. -/
theorem Symbol.ofSpelling?_lineFeed (c : Char) : Symbol.ofSpelling? [c, '\n'] = none := by
  apply List.find?_eq_none.mpr
  intro s _
  cases s <;> simp [Symbol.spelling]

theorem symbolPiece_before (c : Char) (text more : List Char) :
    symbolPiece c (text ++ '\n' :: more) = (symbolPiece c text).before ('\n' :: more) := by
  cases text with
  | nil =>
    rw [List.nil_append, symbolPiece, Symbol.ofSpelling?_lineFeed]
    exact singlePiece_before c [] _
  | cons d text =>
    rw [List.cons_append, symbolPiece, symbolPiece]
    split
    · rfl
    · exact singlePiece_before c (d :: text) _

/-- A piece is the same with a line feed and more text behind the text that it is cut off. -/
theorem piece_before (closed : ∀ cause, (piece c text).found = .fault cause → ¬ cause.Unterminated)
    (more : List Char) : piece c (text ++ '\n' :: more) = (piece c text).before ('\n' :: more) := by
  have head (d : Char) (other : d ≠ '\n') :
      (text ++ '\n' :: more).head? = some d ↔ text.head? = some d := by
    cases text with
    | nil => simpa using other.symm
    | cons => rfl
  unfold piece at closed ⊢
  simp only [head '/' (by decide), head '*' (by decide)]
  split at closed
  · next blank =>
    rw [if_pos blank, if_pos blank]
    rfl
  next unblank =>
  rw [if_neg unblank, if_neg unblank]
  split at closed
  · next slashes =>
    rw [if_pos slashes, if_pos slashes]
    exact lineComment_before text more
  next unslashed =>
  rw [if_neg unslashed, if_neg unslashed]
  split at closed
  · next slashStar =>
    rw [if_pos slashStar, if_pos slashStar]
    obtain ⟨rest, rfl⟩ := List.head?_eq_some_iff.mp slashStar.2
    exact blockComment_before (fun unclosed => closed _ unclosed (.inr rfl)) ('\n' :: more)
  next uncommented =>
  rw [if_neg uncommented, if_neg uncommented]
  split at closed
  · next quote =>
    rw [if_pos quote, if_pos quote]
    exact stringPiece_before (fun unclosed => closed _ unclosed (.inl rfl)) ('\n' :: more)
  next unquoted =>
  rw [if_neg unquoted, if_neg unquoted]
  split
  · exact numberPiece_before c text more
  split
  · exact wordPiece_before c text more
  · exact symbolPiece_before c text more

theorem wordPiece_ne_end {kind : Token.Kind} (found : (wordPiece c text).found = .token kind) :
    kind ≠ .endOfFile := by
  simp only [wordPiece, Found.token.injEq] at found
  rw [← found]
  split <;> intro same <;> cases same

/-- No piece is an end marker. -/
theorem piece_ne_end {kind : Token.Kind} (found : (piece c text).found = .token kind) :
    kind ≠ .endOfFile := by
  unfold piece at found
  split at found
  · cases found
  split at found
  · cases found
  split at found
  · unfold blockComment at found
    split at found <;> cases found
  split at found
  · obtain ⟨inside, rfl⟩ := stringPiece_string found
    nofun
  split at found
  · obtain ⟨value, rfl⟩ := numberPiece_number found
    nofun
  split at found
  · exact wordPiece_ne_end found
  · obtain ⟨s, rfl⟩ := symbolPiece_symbol found
    nofun

end Pieces

section Items

variable {c : Char} {text : List Char} {line : Nat}

/-- What a piece yields that ends on a line. -/
def Piece.items (piece : Piece) (line : Nat) : List Item :=
  match piece.found with
  | .blank => []
  | .token kind => [.token ⟨kind, String.ofList piece.consumed, line⟩]
  | .fault cause => [.fault ⟨cause, line⟩]

theorem items_of_none {s : Scan} (given : s.next? = none) : s.items = [] := by
  rw [items]
  split
  · rfl
  · next given' =>
    rw [given] at given'
    cases given'

theorem items_of_some {s after : Scan} {item : Item} (given : s.next? = some (item, after)) :
    s.items = item :: after.items := by
  rw [items]
  split
  · next given' =>
    rw [given] at given'
    cases given'
  · next given' =>
    rw [given] at given'
    cases given'
    rfl

theorem items_eq_of_next {s s' : Scan} (same : s.next? = s'.next?) : s.items = s'.items := by
  cases given : s.next? with
  | none => rw [items_of_none given, items_of_none (same.symm.trans given)]
  | some found => rw [items_of_some given, items_of_some (same.symm.trans given)]

theorem items_nil (line : Nat) : items ⟨[], line, false⟩ = [.token (.endOfFile line)] := by
  have given : next? ⟨[], line, false⟩ = some (.token (.endOfFile line), ⟨[], line, true⟩) := by
    rw [next?]
    rfl
  have ended : next? ⟨[], line, true⟩ = none := by
    rw [next?]
    rfl
  rw [items_of_some given, items_of_none ended]

/-- A text yields what its first piece yields, and then what the rest does. -/
theorem items_cons (c : Char) (text : List Char) (line : Nat) :
    items ⟨c :: text, line, false⟩ =
      (piece c text).items (line + (piece c text).consumed.count '\n') ++
        items ⟨(piece c text).rest, line + (piece c text).consumed.count '\n', false⟩ := by
  unfold Piece.items
  split
  · next found =>
    apply items_eq_of_next
    rw [next?]
    simp only [Bool.false_eq_true, if_false, found]
  · next kind found =>
    apply items_of_some
    rw [next?]
    simp only [Bool.false_eq_true, if_false, found]
  · next cause found =>
    apply items_of_some
    rw [next?]
    simp only [Bool.false_eq_true, if_false, found]

/-- Facts about a text are proved piece by piece. -/
theorem pieces_induction {motive : List Char → Nat → Prop} (nil : ∀ line, motive [] line)
    (cons : ∀ c text line, motive (piece c text).rest (line + (piece c text).consumed.count '\n') →
      motive (c :: text) line) : ∀ text line, motive text line
  | [], line => nil line
  | c :: text, line => cons c text line (pieces_induction nil cons _ _)
termination_by text => text.length
decreasing_by exact Nat.lt_succ_of_le (piece_rest_length c text)

theorem Piece.items_ne_end {c : Char} {text : List Char} {line : Nat} {t : Token}
    (member : .token t ∈ (piece c text).items line) : t.kind ≠ .endOfFile := by
  unfold Piece.items at member
  split at member
  · cases member
  · next found =>
    rw [List.mem_singleton] at member
    cases member
    exact piece_ne_end found
  · rw [List.mem_singleton] at member
    cases member

theorem Piece.items_lexeme {c : Char} {text : List Char} {line : Nat} {t : Token}
    (member : .token t ∈ (piece c text).items line) : t.lexeme ≠ "" := by
  unfold Piece.items at member
  split at member
  · cases member
  · rw [List.mem_singleton] at member
    cases member
    simpa using piece_consumed_ne_nil c text
  · rw [List.mem_singleton] at member
    cases member

/-- The last thing that a text yields is its only end marker, on its last line. -/
theorem items_end (text : List Char) (line : Nat) :
    ∃ found, items ⟨text, line, false⟩ = found ++ [.token (.endOfFile (line + text.count '\n'))] ∧
      ∀ t, .token t ∈ found → t.kind ≠ .endOfFile ∧ t.lexeme ≠ "" := by
  induction text, line using pieces_induction with
  | nil line => exact ⟨[], items_nil line, nofun⟩
  | cons c text line ih =>
    obtain ⟨found, rest, single⟩ := ih
    have whole := congrArg (List.count '\n') (piece_append c text)
    rw [List.count_append] at whole
    refine ⟨(piece c text).items (line + (piece c text).consumed.count '\n') ++ found, ?_, ?_⟩
    · rw [items_cons, rest, ← whole, Nat.add_assoc, List.append_assoc]
    · intro t member
      rcases List.mem_append.mp member with first | later
      · exact ⟨Piece.items_ne_end first, Piece.items_lexeme first⟩
      · exact single t later

theorem Piece.items_relined (piece : Piece) (line lines : Nat) :
    piece.items (line + lines) = (piece.items line).map (Item.relined (· + lines)) := by
  unfold Piece.items
  split <;> rfl

/-- A text that begins on a later line yields the same on later lines. -/
theorem items_later (lines : Nat) (text : List Char) (line : Nat) :
    items ⟨text, line + lines, false⟩ =
      (items ⟨text, line, false⟩).map (Item.relined (· + lines)) := by
  induction text, line using pieces_induction with
  | nil line =>
    rw [items_nil, items_nil]
    rfl
  | cons c text line ih =>
    rw [items_cons, items_cons, Nat.add_right_comm, ih, Piece.items_relined, List.map_append]

/-- Two texts that are joined by a line feed yield what the first one does before its end marker, and
then what the second one does from the next line on. -/
theorem items_join (more : List Char) (text : List Char) (line : Nat)
    (closed : ∀ e, .fault e ∈ items ⟨text, line, false⟩ → ¬ e.cause.Unterminated) :
    items ⟨text ++ '\n' :: more, line, false⟩ =
      (items ⟨text, line, false⟩).dropLast ++
        items ⟨more, line + text.count '\n' + 1, false⟩ := by
  induction text, line using pieces_induction with
  | nil line =>
    have blank : piece '\n' more = ⟨.blank, ['\n'], more⟩ := rfl
    rw [List.nil_append, items_cons, blank, items_nil]
    rfl
  | cons c text line ih =>
    rw [items_cons] at closed
    have closed' (cause : LexicalError.Cause) (found : (piece c text).found = .fault cause) :
        ¬ cause.Unterminated := by
      apply closed ⟨cause, line + (piece c text).consumed.count '\n'⟩
      simp only [Piece.items, found]
      exact List.mem_append_left _ List.mem_cons_self
    obtain ⟨found, rest, _⟩ :=
      items_end (piece c text).rest (line + (piece c text).consumed.count '\n')
    have nonempty :
        items ⟨(piece c text).rest, line + (piece c text).consumed.count '\n', false⟩ ≠ [] := by
      rw [rest]
      simp
    have whole := congrArg (List.count '\n') (piece_append c text)
    rw [List.count_append] at whole
    have cut : items ⟨c :: (text ++ '\n' :: more), line, false⟩ =
        (piece c text).items (line + (piece c text).consumed.count '\n') ++
          items ⟨(piece c text).rest ++ '\n' :: more, line + (piece c text).consumed.count '\n',
            false⟩ := by
      rw [items_cons, piece_before closed']
      rfl
    rw [List.cons_append, cut, ih fun e member => closed e (List.mem_append_right _ member), items_cons,
      List.dropLast_append_of_ne_nil nonempty, List.append_assoc, ← whole, ← Nat.add_assoc line]

end Items

end Scan

/-- The tokens of a text are followed by its only end marker, which is on the last line, and is the only
one with no text. -/
theorem scan_end (source : String) :
    ∃ tokens, (scan source).1 = tokens ++ [.endOfFile (1 + source.toList.count '\n')] ∧
      ∀ t ∈ tokens, t.kind ≠ .endOfFile ∧ t.lexeme ≠ "" := by
  obtain ⟨found, whole, single⟩ := Scan.items_end source.toList 1
  refine ⟨found.filterMap Item.token?, ?_, ?_⟩
  · simp only [scan, Scan.start, whole, List.filterMap_append]
    rfl
  · intro t member
    obtain ⟨item, among, same⟩ := List.mem_filterMap.mp member
    cases item with
    | token found =>
      cases same
      exact single t among
    | fault e => cases same

/-- No name in a text is empty. -/
theorem scan_name_ne_empty {source : String} {t : Token} (member : t ∈ (scan source).1)
    (name : t.kind = .identifier) : t.lexeme ≠ "" := by
  obtain ⟨own, tokens, single⟩ := scan_end source
  rw [tokens] at member
  rcases List.mem_append.mp member with inside | last
  · exact (single t inside).2
  · rw [List.mem_singleton.mp last] at name
    cases name

/-- Tokens stay tokens on other lines. -/
theorem tokens_relined (line : Nat → Nat) (items : List Item) :
    (items.map (Item.relined line)).filterMap Item.token? =
      (items.filterMap Item.token?).map (Token.relined line) := by
  rw [List.filterMap_map, List.map_filterMap]
  congr 1
  funext item
  cases item <;> rfl

/-- Faults stay faults on other lines. -/
theorem faults_relined (line : Nat → Nat) (items : List Item) :
    (items.map (Item.relined line)).filterMap Item.fault? =
      (items.filterMap Item.fault?).map (LexicalError.relined line) := by
  rw [List.filterMap_map, List.map_filterMap]
  congr 1
  funext item
  cases item <;> rfl

/-- Two texts that are joined by a line feed yield what the first one does before its end marker, and
then what the second one does, on later lines. The first text must not end in a string or a block
comment that is not closed. -/
theorem Scan.start_join (first second : String)
    (closed : ∀ e ∈ (scan first).2, ¬ e.cause.Unterminated) :
    (Scan.start (first ++ "\n" ++ second)).items = (Scan.start first).items.dropLast ++
      (Scan.start second).items.map (Item.relined (· + (first.toList.count '\n' + 1))) := by
  have text : (first ++ "\n" ++ second).toList = first.toList ++ '\n' :: second.toList := by simp
  have closed' (e : LexicalError) (member : .fault e ∈ Scan.items ⟨first.toList, 1, false⟩) :
      ¬ e.cause.Unterminated := closed e (List.mem_filterMap.mpr ⟨_, member, rfl⟩)
  rw [Scan.start, text, Scan.items_join second.toList first.toList 1 closed', Nat.add_assoc,
    Scan.items_later]
  rfl

/-- Two texts that are joined by a line feed have the tokens of the first without its end marker, and
then those of the second on later lines; so it is with their faults. The first text must not end in a
string or a block comment that is not closed. -/
theorem scan_join (first second : String) (closed : ∀ e ∈ (scan first).2, ¬ e.cause.Unterminated) :
    let later := (· + (first.toList.count '\n' + 1))
    scan (first ++ "\n" ++ second) =
      ((scan first).1.dropLast ++ (scan second).1.map (Token.relined later),
        (scan first).2 ++ (scan second).2.map (LexicalError.relined later)) := by
  intro later
  obtain ⟨found, whole, _⟩ := Scan.items_end first.toList 1
  have whole : (Scan.start first).items = _ := whole
  simp only [scan, Scan.start_join first second closed, whole, List.dropLast_concat,
    List.filterMap_append, tokens_relined, faults_relined]
  simp [Item.token?, Item.fault?, later]

end LoxLang
