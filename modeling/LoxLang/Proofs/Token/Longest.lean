import Mathlib.Data.List.Infix
import Mathlib.Data.List.TakeWhile
import LoxLang.Proofs.Token.Join
import LoxLang.Proofs.Token.Lexicon

/-! Maximal munch. A text is tokenized piece by piece: blanks and comments are skipped, otherwise the
longest lexeme at the front is taken, and where there is none, one character is given up, or all of the
text behind a quote or a comment opening that nothing closes. Scanning yields exactly the items of this
tokenization, which every text has one of. -/
namespace LoxLang

namespace Scan

/-- The text has a lexeme of this kind at its front, and none that is longer. -/
structure Longest (text : List Char) (kind : Token.Kind) (front rest : List Char) : Prop where
  split : front ++ rest = text
  lexeme : Lexeme kind front
  longest : ∀ kind other, Lexeme kind other → other <+: text → other.length ≤ front.length

/-- What is skipped at the front of a text, with the text behind it. A block comment ends with the first
closing that follows its opening. -/
inductive Skipped : List Char → List Char → Prop
  | blank {c : Char} {rest : List Char} (blank : c = ' ' ∨ c = '\t' ∨ c = '\r' ∨ c = '\n') :
    Skipped [c] rest
  | lineComment {inside rest : List Char} (within : '\n' ∉ inside)
    (ended : ∀ c, rest.head? = some c → c = '\n') : Skipped ('/' :: '/' :: inside) rest
  | blockComment {inside rest : List Char} (first : ∀ earlier later,
      inside ++ '*' :: '/' :: rest = earlier ++ '*' :: '/' :: later → inside.length ≤ earlier.length) :
    Skipped ('/' :: '*' :: inside ++ ['*', '/']) rest

/-- What is given up at the front of a text, and why, with the text behind it. -/
inductive GivenUp : LexicalError.Cause → List Char → List Char → Prop
  | comment {text : List Char} (unclosed : ∀ inside later, text ≠ inside ++ '*' :: '/' :: later) :
    GivenUp .unterminatedComment ('/' :: '*' :: text) []
  | string {text : List Char} (unclosed : '"' ∉ text) : GivenUp .unterminatedString ('"' :: text) []
  | character {c : Char} {rest : List Char} (unblank : isBlank c = false) (unquoted : c ≠ '"')
    (none : ∀ kind other, Lexeme kind other → ¬ other <+: c :: rest) :
    GivenUp (.unexpectedCharacter c) [c] rest

/-- A comment begins here. -/
def OpensComment (text : List Char) : Prop := ['/', '/'] <+: text ∨ ['/', '*'] <+: text

/-- How a text that starts on a line is tokenized: into items, the last of which is the end marker. An
item is on the line on which its text ends. -/
inductive Tokenized : List Char → Nat → List Item → Prop
  | ended {line} : Tokenized [] line [.token (.endOfFile line)]
  | skip {skipped rest line items} (skips : Skipped skipped rest)
    (others : Tokenized rest (line + skipped.count '\n') items) :
    Tokenized (skipped ++ rest) line items
  | take {text kind front rest line items} (outside : ¬ OpensComment text)
    (longest : Longest text kind front rest)
    (others : Tokenized rest (line + front.count '\n') items) :
    Tokenized text line (.token ⟨kind, String.ofList front, line + front.count '\n'⟩ :: items)
  | giveUp {cause front rest line items} (gives : GivenUp cause front rest)
    (others : Tokenized rest (line + front.count '\n') items) :
    Tokenized (front ++ rest) line (.fault ⟨cause, line + front.count '\n'⟩ :: items)

variable {c : Char} {text front rest : List Char} {kind : Token.Kind}

section Skipping

theorem lineComment_skipped (text : List Char) :
    Skipped (lineComment ('/' :: text)).consumed (lineComment ('/' :: text)).rest := by
  have consumed : (lineComment ('/' :: text)).consumed = '/' :: '/' :: text.takeWhile (· ≠ '\n') := rfl
  have rest : (lineComment ('/' :: text)).rest = text.dropWhile (· ≠ '\n') := rfl
  rw [consumed, rest]
  refine .lineComment (fun member => ?_) (fun d first => ?_)
  · simpa using List.mem_takeWhile_imp member
  · have stopped := List.head?_dropWhile_not (· ≠ '\n') text
    rw [first] at stopped
    simpa using stopped

/-- The comment that is found ends with its first closing. -/
theorem throughCommentEnd?_first {inside after : List Char}
    (found : throughCommentEnd? text = some (inside, after)) :
    ∃ body, inside = body ++ ['*', '/'] ∧ ∀ earlier later,
      body ++ '*' :: '/' :: after = earlier ++ '*' :: '/' :: later → body.length ≤ earlier.length := by
  fun_induction throughCommentEnd? text generalizing inside with
  | case1 rest =>
    cases found
    exact ⟨[], rfl, fun _ _ _ => Nat.zero_le _⟩
  | case2 c rest other ih =>
    obtain ⟨⟨body, tail⟩, inner, pair⟩ := Option.map_eq_some_iff.1 found
    cases pair
    obtain ⟨body, rfl, first⟩ := ih inner
    refine ⟨c :: body, rfl, fun earlier later same => ?_⟩
    cases earlier with
    | nil =>
      have whole := throughCommentEnd?_append inner
      obtain ⟨rfl, closing⟩ := List.cons.inj same
      rw [List.append_assoc] at whole
      exact (other later rfl (whole.symm.trans closing)).elim
    | cons d earlier => exact Nat.succ_le_succ (first earlier later (List.cons.inj same).2)
  | case3 => cases found

/-- A comment that is closed is found. -/
theorem throughCommentEnd?_some (inside later : List Char) :
    ∃ body after, throughCommentEnd? (inside ++ '*' :: '/' :: later) = some (body ++ ['*', '/'], after) := by
  have closed : throughCommentEnd? (inside ++ '*' :: '/' :: later) ≠ none := by
    induction inside with
    | nil => nofun
    | cons d inside ih =>
      rw [List.cons_append, throughCommentEnd?.eq_def]
      split
      · nofun
      · next same =>
        obtain ⟨rfl, rfl⟩ := List.cons.inj same
        simpa using ih
      · next same => cases same
  obtain ⟨⟨through, after⟩, found⟩ := Option.ne_none_iff_exists'.mp closed
  obtain ⟨body, rfl, _⟩ := throughCommentEnd?_first found
  exact ⟨body, after, found⟩

end Skipping

section Taking

/-- A prefix of such characters is within all of them at the front. -/
theorem length_le_takeWhile {p : Char → Bool} {within : List Char} (all : ∀ d ∈ within, p d = true)
    (before : within <+: text) : within.length ≤ (text.takeWhile p).length := by
  obtain ⟨more, rfl⟩ := before
  rw [List.takeWhile_append_of_pos all, List.length_append]
  exact Nat.le_add_right _ _

/-- What is longest is so if it is among the lexemes that begin as the text does. -/
theorem longest_of_form (split : front ++ rest = c :: text) (lexeme : Lexeme kind front)
    (longest : ∀ kind other, Lexeme.Form c other kind → other <+: text →
      other.length + 1 ≤ front.length) : Longest (c :: text) kind front rest where
  split := split
  lexeme := lexeme
  longest := by
    intro kind other found before
    cases other with
    | nil => exact Nat.zero_le _
    | cons d other =>
      obtain ⟨rfl, within⟩ := List.cons_prefix_cons.mp before
      exact longest kind other found.form within

theorem wordPiece_longest (starts : isNameStart c = true) : ∃ kind,
    (wordPiece c text).found = .token kind ∧
      Longest (c :: text) kind (wordPiece c text).consumed (wordPiece c text).rest := by
  refine ⟨Keyword.kindOf (c :: text.takeWhile isNamePart), rfl, longest_of_form ?_ ?_ ?_⟩
  · simp [wordPiece]
  · exact .word starts fun d member => List.mem_takeWhile_imp member
  · intro kind other form before
    exact Nat.succ_le_succ (length_le_takeWhile (form.of_name starts).2 before)

theorem kept_cons {keeps : Char → Bool} (kept : keeps c = true) (text : List Char) :
    ∀ d ∈ c :: text.takeWhile keeps, keeps d = true :=
  List.forall_mem_cons.mpr ⟨kept, fun _ => List.mem_takeWhile_imp⟩

/-- Where no digit follows a point, a number is its digits. -/
theorem whole_longest (digit : isDigit c = true)
    (short : ∀ d behind, text.dropWhile isDigit = '.' :: d :: behind → isDigit d = false)
    (split : c :: text.takeWhile isDigit ++ rest = c :: text) :
    Longest (c :: text) (.number (Number.ofDigits (c :: text.takeWhile isDigit) []))
      (c :: text.takeWhile isDigit) rest := by
  refine longest_of_form split (.whole (List.cons_ne_nil _ _) (kept_cons digit text)) ?_
  intro kind other form before
  apply Nat.succ_le_succ
  obtain ⟨-, all⟩ | ⟨digits, fraction, -, rfl, all, nonempty, all'⟩ := form.of_digit digit
  · exact length_le_takeWhile all before
  · obtain ⟨more, -, dropped⟩ := Lexeme.digits_of_point all before
    obtain ⟨d, fraction, rfl⟩ := List.exists_cons_of_ne_nil nonempty
    have undigit := short d _ dropped
    rw [all' d List.mem_cons_self] at undigit
    cases undigit

/-- Where a digit follows a point, a number goes on with the digits behind the point. -/
theorem decimal_longest {d : Char} {behind : List Char} (digit : isDigit c = true)
    (dropped : text.dropWhile isDigit = '.' :: d :: behind) (fractional : isDigit d = true)
    (split : c :: text.takeWhile isDigit ++ '.' :: d :: behind.takeWhile isDigit ++ rest = c :: text) :
    Longest (c :: text)
      (.number (Number.ofDigits (c :: text.takeWhile isDigit) (d :: behind.takeWhile isDigit)))
      (c :: text.takeWhile isDigit ++ '.' :: d :: behind.takeWhile isDigit) rest := by
  refine longest_of_form split (.decimal (List.cons_ne_nil _ _) (kept_cons digit text)
    (List.cons_ne_nil _ _) (kept_cons fractional behind)) ?_
  intro kind other form before
  simp only [List.length_append, List.length_cons]
  obtain ⟨-, all⟩ | ⟨digits, fraction, -, rfl, all, -, all'⟩ := form.of_digit digit
  · have := length_le_takeWhile all before
    omega
  · obtain ⟨more, taken, dropped'⟩ := Lexeme.digits_of_point all before
    rw [dropped] at dropped'
    have within : fraction <+: d :: behind := ⟨more, (List.cons.inj dropped').2.symm⟩
    have bound := length_le_takeWhile all' within
    rw [List.takeWhile_cons_of_pos fractional, List.length_cons] at bound
    rw [taken, List.length_append, List.length_cons]
    omega

theorem numberPiece_longest (digit : isDigit c = true) : ∃ kind,
    (numberPiece c text).found = .token kind ∧
      Longest (c :: text) kind (numberPiece c text).consumed (numberPiece c text).rest := by
  have whole := List.takeWhile_append_dropWhile (p := isDigit) (l := text)
  simp only [numberPiece]
  split
  · next d behind dropped =>
    rw [dropped] at whole
    split
    · next fractional =>
      refine ⟨_, rfl, decimal_longest digit dropped fractional ?_⟩
      simpa only [List.cons_append, List.append_assoc, List.takeWhile_append_dropWhile,
        List.cons.injEq, true_and] using whole
    · next undigit =>
      refine ⟨_, rfl, whole_longest digit (fun d' rest dropped' => ?_) (by simpa using whole)⟩
      rw [dropped] at dropped'
      cases dropped'
      simpa using undigit
  · next other =>
    exact ⟨_, rfl, whole_longest digit (fun d rest dropped => (other d rest dropped).elim)
      (by simp)⟩

theorem stringPiece_fits : (∃ kind, (stringPiece text).found = .token kind ∧
      Longest ('"' :: text) kind (stringPiece text).consumed (stringPiece text).rest) ∨
    ∃ cause, (stringPiece text).found = .fault cause ∧
      GivenUp cause (stringPiece text).consumed (stringPiece text).rest := by
  have whole := List.takeWhile_append_dropWhile (p := (· ≠ '"')) (l := text)
  have unquoted : '"' ∉ text.takeWhile (· ≠ '"') := fun member => by
    simpa using List.mem_takeWhile_imp member
  simp only [stringPiece]
  split
  · next quote behind dropped =>
    have closing := List.head?_dropWhile_not (· ≠ '"') text
    rw [dropped] at closing
    obtain rfl : quote = '"' := by simpa using closing
    rw [dropped] at whole
    refine .inl ⟨_, rfl, longest_of_form (by simpa using whole) (.string unquoted) ?_⟩
    intro kind other form before
    obtain ⟨inside, -, rfl, unquoted'⟩ := form.of_quote rfl
    have within : inside <+: text := (List.prefix_append _ _).trans before
    have bound := length_le_takeWhile (p := (· ≠ '"')) (fun d member => by
      have differs : d ≠ '"' := fun same => unquoted' (same ▸ member)
      simpa using differs) within
    simp only [List.length_append, List.length_cons, List.length_nil]
    omega
  · next dropped =>
    rw [dropped, List.append_nil] at whole
    exact .inr ⟨_, rfl, .string (whole ▸ unquoted)⟩

/-- A character that begins a symbol and nothing else. -/
structure Plain (c : Char) : Prop where
  unblank : isBlank c = false
  unquoted : c ≠ '"'
  undigit : isDigit c = false
  unnamed : isNameStart c = false

/-- Where no symbol of two characters is at the front, no lexeme of more than one is. -/
theorem Plain.alone (plain : Plain c) (short : ∀ d, [d] <+: text → Symbol.ofSpelling? [c, d] = none)
    {other : List Char} (form : Lexeme.Form c other kind) (before : other <+: text) : other = [] := by
  obtain ⟨s, -, spelled⟩ := form.of_other plain.unquoted plain.undigit plain.unnamed
  obtain ⟨_, _, spelled', few, _⟩ := s.spelling_eq
  obtain ⟨rfl, rfl⟩ := List.cons.inj (spelled.symm.trans spelled')
  match other, few with
  | [], _ => rfl
  | [d], _ =>
    have absent := short d before
    rw [← spelled, Symbol.ofSpelling?_spelling] at absent
    cases absent

theorem singlePiece_fits (plain : Plain c)
    (short : ∀ d, [d] <+: text → Symbol.ofSpelling? [c, d] = none) :
    (∃ kind, (singlePiece c text).found = .token kind ∧
      Longest (c :: text) kind (singlePiece c text).consumed (singlePiece c text).rest) ∨
    ∃ cause, (singlePiece c text).found = .fault cause ∧
      GivenUp cause (singlePiece c text).consumed (singlePiece c text).rest := by
  unfold singlePiece
  split
  · next s found =>
    refine .inl ⟨_, rfl, longest_of_form rfl ?_ fun kind other form before => ?_⟩
    · rw [← Symbol.spelling_of_found found]
      exact .symbol s
    · rw [plain.alone short form before]
      rfl
  · next absent =>
    refine .inr ⟨_, rfl, .character plain.unblank plain.unquoted fun kind other lexeme before => ?_⟩
    cases other with
    | nil => exact lexeme.ne_nil rfl
    | cons d other =>
      obtain ⟨rfl, within⟩ := List.cons_prefix_cons.mp before
      obtain ⟨s, -, spelled⟩ := lexeme.form.of_other plain.unquoted plain.undigit plain.unnamed
      rw [plain.alone short lexeme.form within] at spelled
      rw [← spelled, Symbol.ofSpelling?_spelling] at absent
      cases absent

theorem symbolPiece_fits (plain : Plain c) :
    (∃ kind, (symbolPiece c text).found = .token kind ∧
      Longest (c :: text) kind (symbolPiece c text).consumed (symbolPiece c text).rest) ∨
    ∃ cause, (symbolPiece c text).found = .fault cause ∧
      GivenUp cause (symbolPiece c text).consumed (symbolPiece c text).rest := by
  unfold symbolPiece
  split
  · next d behind =>
    split
    · next s found =>
      refine .inl ⟨_, rfl, longest_of_form rfl ?_ fun kind other form _ => ?_⟩
      · rw [← Symbol.spelling_of_found found]
        exact .symbol s
      · obtain ⟨s', -, spelled⟩ := form.of_other plain.unquoted plain.undigit plain.unnamed
        obtain ⟨_, rest, spelled', few, _⟩ := s'.spelling_eq
        obtain ⟨rfl, rfl⟩ := List.cons.inj (spelled.symm.trans spelled')
        exact Nat.succ_le_succ few
    · next absent =>
      refine singlePiece_fits plain fun d' before => ?_
      obtain ⟨rfl, _⟩ := List.cons_prefix_cons.mp before
      exact absent
  · exact singlePiece_fits plain fun d before => (List.cons_ne_nil d [] (List.prefix_nil.mp before)).elim

end Taking

section Pieces

/-- What a piece at the front of a text is, in terms of the lexicon. -/
inductive Fits (text : List Char) : Piece → Prop
  | skipped {front rest : List Char} (skips : Skipped front rest) : Fits text ⟨.blank, front, rest⟩
  | taken {kind : Token.Kind} {front rest : List Char} (outside : ¬ OpensComment text)
    (longest : Longest text kind front rest) : Fits text ⟨.token kind, front, rest⟩
  | givenUp {cause : LexicalError.Cause} {front rest : List Char} (gives : GivenUp cause front rest) :
    Fits text ⟨.fault cause, front, rest⟩

theorem Fits.of_found {whole : List Char} {piece : Piece} (outside : ¬ OpensComment whole)
    (found : (∃ kind, piece.found = .token kind ∧ Longest whole kind piece.consumed piece.rest) ∨
      ∃ cause, piece.found = .fault cause ∧ GivenUp cause piece.consumed piece.rest) :
    Fits whole piece := by
  obtain ⟨found', consumed, rest⟩ := piece
  obtain ⟨kind, rfl, longest⟩ | ⟨cause, rfl, gives⟩ := found
  · exact .taken outside longest
  · exact .givenUp gives

theorem blockComment_fits (text : List Char) :
    Fits ('/' :: '*' :: text) (blockComment text) := by
  unfold blockComment
  split
  · next inside rest found =>
    obtain ⟨body, rfl, first⟩ := throughCommentEnd?_first found
    exact .skipped (.blockComment first)
  · next absent =>
    refine .givenUp (.comment fun inside later same => ?_)
    subst same
    obtain ⟨body, after, found⟩ := throughCommentEnd?_some inside later
    rw [absent] at found
    cases found

/-- The piece that scanning cuts off is one that the lexicon calls for. -/
theorem piece_fits (c : Char) (text : List Char) : Fits (c :: text) (piece c text) := by
  unfold piece
  split
  · next blank =>
    exact .skipped (.blank (isBlank_iff.mp blank))
  next unblank =>
  split
  · next slashes =>
    obtain ⟨rfl, second⟩ := slashes
    obtain ⟨text, rfl⟩ := List.head?_eq_some_iff.mp second
    exact .skipped (lineComment_skipped text)
  next unslashed =>
  split
  · next slashStar =>
    obtain ⟨rfl, second⟩ := slashStar
    obtain ⟨text, rfl⟩ := List.head?_eq_some_iff.mp second
    exact blockComment_fits text
  next unstarred =>
  have outside : ¬ OpensComment (c :: text) := by
    rintro (⟨rest, same⟩ | ⟨rest, same⟩)
    · cases same
      exact unslashed ⟨rfl, rfl⟩
    · cases same
      exact unstarred ⟨rfl, rfl⟩
  apply Fits.of_found outside
  split
  · next quote =>
    subst quote
    exact stringPiece_fits
  next unquoted =>
  split
  · next digit => exact .inl (numberPiece_longest digit)
  next undigit =>
  split
  · next starts => exact .inl (wordPiece_longest starts)
  next unnamed =>
  exact symbolPiece_fits ⟨by simpa using unblank, unquoted, by simpa using undigit, by simpa using unnamed⟩

theorem Longest.unique {kind' : Token.Kind} {front' rest' : List Char}
    (longest : Longest text kind front rest) (longest' : Longest text kind' front' rest') :
    (⟨.token kind, front, rest⟩ : Piece) = ⟨.token kind', front', rest'⟩ := by
  have within : front <+: text := ⟨rest, longest.split⟩
  have within' : front' <+: text := ⟨rest', longest'.split⟩
  have length : front.length = front'.length := Nat.le_antisymm
    (longest'.longest _ _ longest.lexeme within) (longest.longest _ _ longest'.lexeme within')
  obtain rfl : front = front' :=
    (List.prefix_of_prefix_length_le within within' (Nat.le_of_eq length)).eq_of_length length
  obtain rfl := List.append_cancel_left (longest.split.trans longest'.split.symm)
  rw [longest.lexeme.kind_unique longest'.lexeme]

theorem Longest.form {c : Char} {text : List Char} (longest : Longest (c :: text) kind front rest) :
    ∃ others, front = c :: others ∧ others ++ rest = text ∧ Lexeme.Form c others kind := by
  obtain ⟨split, lexeme, -⟩ := longest
  obtain ⟨d, others, rfl⟩ := List.exists_cons_of_ne_nil lexeme.ne_nil
  obtain ⟨rfl, behind⟩ := List.cons.inj split
  exact ⟨others, rfl, behind, lexeme.form⟩

/-- Skipping excludes taking a lexeme. -/
theorem Skipped.excludes (skips : Skipped front rest) (outside : ¬ OpensComment (front ++ rest))
    {front' rest' : List Char} : ¬ Longest (front ++ rest) kind front' rest' := by
  intro longest
  cases skips with
  | @blank c rest blank =>
    obtain ⟨_, -, -, form⟩ := Longest.form longest
    have unblank := form.unblank
    rcases blank with rfl | rfl | rfl | rfl <;> cases unblank
  | lineComment => exact outside (.inl ⟨_, rfl⟩)
  | blockComment => exact outside (.inr ⟨_, rfl⟩)

theorem GivenUp.excludes {cause : LexicalError.Cause} (gives : GivenUp cause front rest)
    (outside : ¬ OpensComment (front ++ rest)) {front' rest' : List Char} :
    ¬ Longest (front ++ rest) kind front' rest' := by
  intro longest
  cases gives with
  | comment => exact outside (.inr ⟨_, rfl⟩)
  | @string text unclosed =>
    obtain ⟨_, -, behind, form⟩ := Longest.form longest
    obtain ⟨inside, -, rfl, -⟩ := form.of_quote rfl
    have whole : inside ++ ['"'] ++ rest' = text := behind.trans (List.append_nil text)
    exact unclosed (whole ▸ by simp)
  | character _ _ none => exact none _ _ longest.lexeme ⟨_, longest.split⟩

/-- No other piece than the one that scanning cuts off is called for. -/
theorem piece_of_longest {c : Char} {text : List Char} (outside : ¬ OpensComment (c :: text))
    (longest : Longest (c :: text) kind front rest) : piece c text = ⟨.token kind, front, rest⟩ := by
  have fits := piece_fits c text
  have append := piece_append c text
  revert fits append
  generalize piece c text = cut
  intro fits append
  cases fits with
  | skipped skips =>
    dsimp only at append
    rw [← append] at outside longest
    exact (skips.excludes outside longest).elim
  | taken _ longest' => exact longest'.unique longest
  | givenUp gives =>
    dsimp only at append
    rw [← append] at outside longest
    exact (gives.excludes outside longest).elim

/-- The first closing ends a comment. -/
theorem throughCommentEnd?_of_first {inside : List Char} (first : ∀ earlier later,
      inside ++ '*' :: '/' :: rest = earlier ++ '*' :: '/' :: later → inside.length ≤ earlier.length) :
    throughCommentEnd? (inside ++ '*' :: '/' :: rest) = some (inside ++ ['*', '/'], rest) := by
  obtain ⟨body, after, found⟩ := throughCommentEnd?_some inside rest
  obtain ⟨body', ended, first'⟩ := throughCommentEnd?_first found
  obtain rfl := List.append_cancel_right ended
  have whole : body ++ '*' :: '/' :: after = inside ++ '*' :: '/' :: rest := by
    simpa using throughCommentEnd?_append found
  have length : body.length = inside.length :=
    Nat.le_antisymm (first' inside rest whole) (first body after whole.symm)
  obtain ⟨rfl, behind⟩ := List.append_inj whole length
  cases behind
  exact found

theorem throughCommentEnd?_of_unclosed
    (unclosed : ∀ inside later, text ≠ inside ++ '*' :: '/' :: later) : throughCommentEnd? text = none := by
  cases found : throughCommentEnd? text with
  | none => rfl
  | some pair =>
    obtain ⟨through, after⟩ := pair
    obtain ⟨body, rfl, -⟩ := throughCommentEnd?_first found
    have whole := throughCommentEnd?_append found
    exact absurd (by simpa using whole.symm) (unclosed body after)

theorem piece_of_skipped {c : Char} {text : List Char} (skips : Skipped front rest)
    (split : front ++ rest = c :: text) : piece c text = ⟨.blank, front, rest⟩ := by
  cases skips with
  | @blank c' _ blank =>
    obtain ⟨rfl, behind⟩ := List.cons.inj split
    obtain rfl : rest = text := behind
    exact if_pos (isBlank_iff.mpr blank)
  | @lineComment inside _ within ended =>
    obtain ⟨rfl, behind⟩ := List.cons.inj split
    obtain rfl : '/' :: (inside ++ rest) = text := behind
    have all : ∀ d ∈ inside, decide (d ≠ '\n') = true := fun d member => by
      have differs : d ≠ '\n' := fun same => within (same ▸ member)
      simpa using differs
    have stops : rest.takeWhile (· ≠ '\n') = [] ∧ rest.dropWhile (· ≠ '\n') = rest := by
      cases rest with
      | nil => exact ⟨rfl, rfl⟩
      | cons d rest => simp [ended d rfl]
    have comment : piece '/' ('/' :: (inside ++ rest)) = lineComment ('/' :: (inside ++ rest)) := rfl
    rw [comment]
    simp only [lineComment]
    rw [List.takeWhile_cons_of_pos (by decide), List.dropWhile_cons_of_pos (by decide),
      List.takeWhile_append_of_pos all, List.dropWhile_append_of_pos all, stops.1, stops.2,
      List.append_nil]
  | @blockComment inside _ first =>
    obtain ⟨rfl, behind⟩ := List.cons.inj split
    obtain rfl : '*' :: (inside ++ '*' :: '/' :: rest) = text := by simpa using behind
    have comment : piece '/' ('*' :: (inside ++ '*' :: '/' :: rest)) =
        blockComment (inside ++ '*' :: '/' :: rest) := rfl
    rw [comment]
    simp only [blockComment, throughCommentEnd?_of_first first]
    rfl

theorem symbolPiece_of_none (absent : ∀ kind other, Lexeme kind other → ¬ other <+: c :: text) :
    symbolPiece c text = ⟨.fault (.unexpectedCharacter c), [c], text⟩ := by
  have unspelled (front : List Char) (within : front <+: c :: text) : Symbol.ofSpelling? front = none := by
    cases found : Symbol.ofSpelling? front with
    | none => rfl
    | some s =>
      have spelled := Symbol.spelling_of_found found
      exact (absent _ _ (.symbol s) (spelled ▸ within)).elim
  have single : singlePiece c text = ⟨.fault (.unexpectedCharacter c), [c], text⟩ := by
    simp only [singlePiece, unspelled [c] ⟨text, rfl⟩]
  cases text with
  | nil => exact single
  | cons d text =>
    simp only [symbolPiece, unspelled [c, d] ⟨text, rfl⟩]
    exact single

theorem piece_of_givenUp {c : Char} {text : List Char} {cause : LexicalError.Cause}
    (gives : GivenUp cause front rest) (split : front ++ rest = c :: text) :
    piece c text = ⟨.fault cause, front, rest⟩ := by
  cases gives with
  | @comment inside unclosed =>
    obtain ⟨rfl, behind⟩ := List.cons.inj split
    obtain rfl : '*' :: inside = text := (List.append_nil _).symm.trans behind
    have comment : piece '/' ('*' :: inside) = blockComment inside := rfl
    rw [comment]
    simp only [blockComment, throughCommentEnd?_of_unclosed unclosed]
  | @string inside unclosed =>
    obtain ⟨rfl, behind⟩ := List.cons.inj split
    obtain rfl : inside = text := (List.append_nil _).symm.trans behind
    have string : piece '"' inside = stringPiece inside := rfl
    have dropped : inside.dropWhile (· ≠ '"') = [] := List.dropWhile_eq_nil_iff.mpr fun d member => by
      have differs : d ≠ '"' := fun same => unclosed (same ▸ member)
      simpa using differs
    rw [string]
    simp only [stringPiece, dropped]
  | @character c' _ unblank unquoted none =>
    obtain ⟨same, behind⟩ := List.cons.inj split
    subst same
    obtain rfl : rest = text := behind
    have unslashed : c' ≠ '/' := by
      rintro rfl
      exact none _ _ (.symbol .slash) ⟨_, rfl⟩
    have undigit : isDigit c' = false := by
      rw [← Bool.not_eq_true]
      intro digit
      exact none _ [c'] (.whole (List.cons_ne_nil _ _) (by simpa using digit)) ⟨_, rfl⟩
    have unnamed : isNameStart c' = false := by
      rw [← Bool.not_eq_true]
      intro starts
      exact none _ [c'] (.word starts (List.forall_mem_nil _)) ⟨_, rfl⟩
    rw [piece, if_neg (by simp [unblank]), if_neg (by simp [unslashed]), if_neg (by simp [unslashed]),
      if_neg unquoted, if_neg (by simp [undigit]), if_neg (by simp [unnamed])]
    exact symbolPiece_of_none none

end Pieces

/-- What scanning yields is a tokenization. -/
theorem items_tokenized (text : List Char) (line : Nat) :
    Tokenized text line (items ⟨text, line, false⟩) := by
  induction text, line using pieces_induction with
  | nil line =>
    rw [items_nil]
    exact .ended
  | cons c text line ih =>
    have fits := piece_fits c text
    have append := piece_append c text
    rw [items_cons]
    revert ih fits append
    generalize piece c text = cut
    intro ih fits append
    cases fits with
    | skipped skips => exact append ▸ .skip skips ih
    | taken outside longest => exact .take outside longest ih
    | givenUp gives => exact append ▸ .giveUp gives ih

/-- A tokenization is what scanning yields. -/
theorem items_of_tokenized {items' : List Item} {line : Nat} (tokenized : Tokenized text line items') :
    items ⟨text, line, false⟩ = items' := by
  induction tokenized with
  | ended => exact items_nil _
  | @skip front rest line items' skips _ ih =>
    cases whole : front ++ rest with
    | nil => cases skips <;> cases whole
    | cons c text =>
      rw [items_cons, piece_of_skipped skips whole, ← ih]
      rfl
  | @take text kind front rest line items' outside longest _ ih =>
    cases text with
    | nil => exact absurd (List.append_eq_nil_iff.mp longest.split).1 longest.lexeme.ne_nil
    | cons c text =>
      rw [items_cons, piece_of_longest outside longest, ← ih]
      rfl
  | @giveUp cause front rest line items' gives _ ih =>
    cases whole : front ++ rest with
    | nil => cases gives <;> cases whole
    | cons c text =>
      rw [items_cons, piece_of_givenUp gives whole, ← ih]
      rfl

/-- The items of a text are exactly those of its tokenization: it has one, and has no other. -/
theorem items_eq_iff_tokenized (source : String) (items : List Item) :
    (start source).items = items ↔ Tokenized source.toList 1 items := by
  refine ⟨fun same => ?_, items_of_tokenized⟩
  rw [← same]
  exact items_tokenized source.toList 1

end Scan
end LoxLang
