import LoxLang.Error.Lexical
import LoxLang.Number
import LoxLang.Token

/-! Scanning: source text to tokens and lexical faults, in order.
One step cuts a non-empty piece off the front of the text: a blank, a comment, a lexeme, or text that
is no lexeme. The longest lexeme is taken. A fault costs its piece and scanning goes on, so every
text ends in exactly one end marker. Letters and digits are ASCII's; strings and comments may hold
any character. Lines are counted by the line feeds of the pieces. -/
namespace LoxLang

def isBlank (c : Char) : Bool := c = ' ' || c = '\t' || c = '\r' || c = '\n'

def isDigit (c : Char) : Bool := '0' ≤ c && c ≤ '9'

def isNameStart (c : Char) : Bool := ('a' ≤ c && c ≤ 'z') || ('A' ≤ c && c ≤ 'Z') || c = '_'

def isNamePart (c : Char) : Bool := isNameStart c || isDigit c

namespace Scan

/-- What a piece of text is. -/
inductive Found where
  | blank
  | token (kind : Token.Kind)
  | fault (cause : LexicalError.Cause)

/-- A piece cut off the front of a text: what it is, its characters, and the text after it. -/
structure Piece where
  found : Found
  consumed : List Char
  rest : List Char

/-- The text up to and including the first `*/`, and the text after it. -/
def throughCommentEnd? : List Char → Option (List Char × List Char)
  | '*' :: '/' :: rest => some (['*', '/'], rest)
  | c :: rest => (throughCommentEnd? rest).map fun (inside, after) => (c :: inside, after)
  | [] => none

/-- A line comment, whose line feed is not part of it; `text` follows its first slash. -/
def lineComment (text : List Char) : Piece :=
  ⟨.blank, '/' :: text.takeWhile (· ≠ '\n'), text.dropWhile (· ≠ '\n')⟩

/-- A block comment; `text` follows its opening. Block comments do not nest. -/
def blockComment (text : List Char) : Piece :=
  match throughCommentEnd? text with
  | some (inside, rest) => ⟨.blank, '/' :: '*' :: inside, rest⟩
  | none => ⟨.fault .unterminatedComment, '/' :: '*' :: text, []⟩

/-- A string; `text` follows its opening quote. -/
def stringPiece (text : List Char) : Piece :=
  let inside := text.takeWhile (· ≠ '"')
  match text.dropWhile (· ≠ '"') with
  | quote :: rest => ⟨.token (.string (String.ofList inside)), '"' :: inside ++ [quote], rest⟩
  | [] => ⟨.fault .unterminatedString, '"' :: text, []⟩

/-- A number with first digit `c`; a point belongs to it only when a digit follows. -/
def numberPiece (c : Char) (text : List Char) : Piece :=
  let whole := c :: text.takeWhile isDigit
  match text.dropWhile isDigit with
  | '.' :: d :: rest =>
    if isDigit d then
      let fraction := d :: rest.takeWhile isDigit
      ⟨.token (.number (Number.ofDigits whole fraction)), whole ++ '.' :: fraction,
        rest.dropWhile isDigit⟩
    else ⟨.token (.number (Number.ofDigits whole [])), whole, '.' :: d :: rest⟩
  | rest => ⟨.token (.number (Number.ofDigits whole [])), whole, rest⟩

/-- A word with first letter `c`: reserved, or an identifier. -/
def wordPiece (c : Char) (text : List Char) : Piece :=
  let word := c :: text.takeWhile isNamePart
  let kind := match Keyword.ofSpelling? (String.ofList word) with
    | some k => .keyword k
    | none => .identifier
  ⟨.token kind, word, text.dropWhile isNamePart⟩

/-- A symbol of one character, or a character that starts no lexeme. -/
def singlePiece (c : Char) (text : List Char) : Piece :=
  match Symbol.ofSpelling? [c] with
  | some s => ⟨.token (.symbol s), [c], text⟩
  | none => ⟨.fault (.unexpectedCharacter c), [c], text⟩

/-- A symbol of two characters where the first two spell one, otherwise a single piece. -/
def symbolPiece (c : Char) : List Char → Piece
  | d :: text =>
    match Symbol.ofSpelling? [c, d] with
    | some s => ⟨.token (.symbol s), [c, d], text⟩
    | none => singlePiece c (d :: text)
  | [] => singlePiece c []

/-- The piece at the front of the text `c :: text`. -/
def piece (c : Char) (text : List Char) : Piece :=
  if isBlank c then ⟨.blank, [c], text⟩
  else if c = '/' ∧ text.head? = some '/' then lineComment text
  else if c = '/' ∧ text.head? = some '*' then blockComment text.tail
  else if c = '"' then stringPiece text
  else if isDigit c then numberPiece c text
  else if isNameStart c then wordPiece c text
  else symbolPiece c text

theorem throughCommentEnd?_append {text inside after : List Char}
    (found : throughCommentEnd? text = some (inside, after)) : inside ++ after = text := by
  fun_induction throughCommentEnd? text generalizing inside with
  | case1 rest => cases found; rfl
  | case2 c rest _ ih =>
    obtain ⟨⟨body, tail⟩, inner, pair⟩ := Option.map_eq_some_iff.1 found
    cases pair
    simp [ih inner]
  | case3 => cases found

theorem blockComment_append (text : List Char) :
    (blockComment text).consumed ++ (blockComment text).rest = '/' :: '*' :: text := by
  unfold blockComment
  split
  · next found => simp [throughCommentEnd?_append found]
  · simp

theorem stringPiece_append (text : List Char) :
    (stringPiece text).consumed ++ (stringPiece text).rest = '"' :: text := by
  have whole := List.takeWhile_append_dropWhile (p := (· ≠ '"')) (l := text)
  simp only [stringPiece]
  split
  · next dropped =>
    rw [dropped] at whole
    simpa using whole
  · simp

theorem numberPiece_append (c : Char) (text : List Char) :
    (numberPiece c text).consumed ++ (numberPiece c text).rest = c :: text := by
  have whole := List.takeWhile_append_dropWhile (p := isDigit) (l := text)
  simp only [numberPiece]
  split
  · next dropped =>
    rw [dropped] at whole
    split
    · simpa only [List.cons_append, List.append_assoc, List.takeWhile_append_dropWhile,
        List.cons.injEq, true_and] using whole
    · simpa using whole
  · simp

theorem singlePiece_append (c : Char) (text : List Char) :
    (singlePiece c text).consumed ++ (singlePiece c text).rest = c :: text := by
  unfold singlePiece
  split <;> rfl

theorem symbolPiece_append (c : Char) (text : List Char) :
    (symbolPiece c text).consumed ++ (symbolPiece c text).rest = c :: text := by
  unfold symbolPiece
  split
  · split
    · rfl
    · exact singlePiece_append c _
  · exact singlePiece_append c _

/-- A piece and the text after it are the whole text. -/
theorem piece_append (c : Char) (text : List Char) :
    (piece c text).consumed ++ (piece c text).rest = c :: text := by
  unfold piece
  split
  · rfl
  split
  · next slashes => simp [lineComment, slashes.1]
  split
  · next slashStar =>
    obtain ⟨rfl, star⟩ := slashStar
    cases text with
    | nil => cases star
    | cons d text =>
      cases star
      exact blockComment_append text
  split
  · next quote => rw [stringPiece_append, quote]
  split
  · exact numberPiece_append c text
  split
  · simp [wordPiece]
  · exact symbolPiece_append c text

theorem singlePiece_consumed (c : Char) (text : List Char) :
    (singlePiece c text).consumed = [c] := by
  unfold singlePiece
  split <;> rfl

theorem piece_consumed_ne_nil (c : Char) (text : List Char) : (piece c text).consumed ≠ [] := by
  unfold piece
  split
  · simp
  split
  · simp [lineComment]
  split
  · unfold blockComment
    split <;> simp
  split
  · unfold stringPiece
    dsimp only
    split <;> simp
  split
  · unfold numberPiece
    dsimp only
    split
    · split <;> simp
    · simp
  split
  · simp [wordPiece]
  · unfold symbolPiece
    split
    · split
      · simp
      · simp [singlePiece_consumed]
    · simp [singlePiece_consumed]

theorem piece_rest_length (c : Char) (text : List Char) :
    (piece c text).rest.length ≤ text.length := by
  have whole := congrArg List.length (piece_append c text)
  have some := List.length_pos_iff.2 (piece_consumed_ne_nil c text)
  simp only [List.length_append, List.length_cons] at whole
  omega

end Scan

/-- What scanning yields, one at a time. -/
inductive Item where
  | token (t : Token)
  | fault (e : LexicalError)

/-- A scan under way: the text ahead, the line on which it starts, and whether the end marker has
been given. -/
structure Scan where
  ahead : List Char
  line : Nat
  ended : Bool

namespace Scan

def start (source : String) : Scan := ⟨source.toList, 1, false⟩

/-- The next item and the scan after it; none once the end marker has been given. -/
def next? (s : Scan) : Option (Item × Scan) :=
  if s.ended then none
  else match _ahead : s.ahead with
    | [] => some (.token (.endOfFile s.line), { s with ended := true })
    | c :: text =>
      let p := piece c text
      let after : Scan := ⟨p.rest, s.line + p.consumed.count '\n', false⟩
      match p.found with
      | .blank => after.next?
      | .token kind => some (.token ⟨kind, String.ofList p.consumed, after.line⟩, after)
      | .fault cause => some (.fault ⟨cause, after.line⟩, after)
termination_by s.ahead.length
decreasing_by
  have := piece_rest_length c text
  simp only [_ahead, List.length_cons]
  omega

/-- What is left to do: each item takes away a character or the end marker. -/
def size (s : Scan) : Nat := if s.ended then 0 else s.ahead.length + 1

theorem size_lt_of_next? {s after : Scan} {item : Item} (given : s.next? = some (item, after)) :
    after.size < s.size := by
  fun_induction next? s with
  | case1 => cases given
  | case2 s open_ nothing =>
    cases given
    simp [size, open_]
  | case3 s open_ c text ahead p rest blank ih =>
    have shorter := piece_rest_length c text
    have := ih given
    simp only [size, rest, p, Bool.false_eq_true, if_false, open_, ahead, List.length_cons] at this ⊢
    omega
  | case4 s open_ c text ahead p rest kind =>
    simp only [Option.some.injEq, Prod.mk.injEq] at given
    rw [← given.2]
    have shorter := piece_rest_length c text
    simp only [size, p, rest, Bool.false_eq_true, if_false, open_, ahead, List.length_cons]
    omega
  | case5 s open_ c text ahead p rest cause =>
    simp only [Option.some.injEq, Prod.mk.injEq] at given
    rw [← given.2]
    have shorter := piece_rest_length c text
    simp only [size, p, rest, Bool.false_eq_true, if_false, open_, ahead, List.length_cons]
    omega

/-- All items from here on. -/
def items (s : Scan) : List Item :=
  match _given : s.next? with
  | none => []
  | some (item, after) => item :: after.items
termination_by s.size
decreasing_by exact size_lt_of_next? _given

end Scan

def Item.token? : Item → Option Token
  | .token t => some t
  | .fault _ => none

def Item.fault? : Item → Option LexicalError
  | .token _ => none
  | .fault e => some e

/-- The tokens of a text and its lexical faults, each in order. -/
def scan (source : String) : List Token × List LexicalError :=
  let items := (Scan.start source).items
  (items.filterMap Item.token?, items.filterMap Item.fault?)

end LoxLang
