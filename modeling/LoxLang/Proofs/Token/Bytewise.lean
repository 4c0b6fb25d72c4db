import LoxLang.Proofs.Ends
import LoxLang.Proofs.Text.Encoding

/-! Scanning byte by byte. A scan walks over the bytes of the text with an index of its own, looks at
most two bytes ahead, and slices the text from where a lexeme starts to where it ends. No access is
taken for granted here: a byte that is not there, a range that is not there, and a range of the text
that begins or ends inside a character are missteps that end the scan. -/
namespace LoxLang.Bytewise
open Text

/-- What a scan must not do. -/
inductive Misstep where
  | byte (index : Nat)
  | range (low high : Nat)
  /-- More rounds of a loop than there are bytes to pass. -/
  | endless

structure Scanner where
  /-- The index of the first byte of the lexeme. -/
  start : Nat
  /-- The index behind the last byte that was passed. -/
  curr : Nat
  line : Nat
  /-- What has been recognized and not been given. -/
  pending : Option Token.Kind

def Scanner.new : Scanner := ⟨0, 0, 1, none⟩

/-- The scan that has passed some more bytes. -/
def Scanner.skip (s : Scanner) (n : Nat) : Scanner := { s with curr := s.curr + n }

@[simp] theorem Scanner.skip_start (s : Scanner) (n : Nat) : (s.skip n).start = s.start := rfl

@[simp] theorem Scanner.skip_curr (s : Scanner) (n : Nat) : (s.skip n).curr = s.curr + n := rfl

theorem Scanner.skip_skip (s : Scanner) (m n : Nat) : (s.skip m).skip n = s.skip (m + n) := by
  simp only [Scanner.skip, Nat.add_assoc]

abbrev Part := EStateM Misstep Scanner

section Definitions

variable (text : String)

def source : List UInt8 := text.toByteArray.data.toList

def byteAt (index : Nat) : Part UInt8 :=
  match (source text)[index]? with
  | some b => return b
  | none => throw (.byte index)

def bytesBetween (low high : Nat) : Part (List UInt8) :=
  if low ≤ high ∧ high ≤ (source text).length then return ((source text).take high).drop low
  else throw (.range low high)

/-- A slice of the text. Both its ends are where a character begins, or the end of the text. -/
def textBetween (low high : Nat) : Part String :=
  if valid : low ≤ high ∧ (String.Pos.Raw.mk low).IsValid text ∧ (String.Pos.Raw.mk high).IsValid text then
    return text.extract ⟨⟨low⟩, valid.2.1⟩ ⟨⟨high⟩, valid.2.2⟩
  else throw (.range low high)

def atEnd : Part Bool := return (source text).length ≤ (← get).curr

/-- Passes one byte. -/
def advance : Part UInt8 := do
  let b ← byteAt text (← get).curr
  modify (·.skip 1)
  return b

/-- The byte ahead; zero at the end. -/
def peek : Part UInt8 := do
  if ← atEnd text then return 0 else byteAt text (← get).curr

/-- The byte behind the one ahead; zero if there is none. -/
def peekNext : Part UInt8 := do
  let index := (← get).curr + 1
  if (source text).length ≤ index then return 0 else byteAt text index

/-- Passes the byte ahead if it is this one. -/
def matchByte (expected : UInt8) : Part Bool := do
  if ← atEnd text then return false
  else if (← peek text) = expected then
    let _ ← advance text
    return true
  else return false

def recognize (kind : Token.Kind) : Part Unit := modify fun s => { s with pending := some kind }

/-- Passes bytes as long as the byte ahead is one of these. -/
def advanceWhile (kept : UInt8 → Bool) : Nat → Part Unit
  | 0 => throw .endless
  | n + 1 => do
    if kept (← peek text) then
      let _ ← advance text
      advanceWhile kept n
    else return ()

/-- Passes what is before the closing quote, and counts its line feeds. -/
def advanceString : Nat → Part Unit
  | 0 => throw .endless
  | n + 1 => do
    if ← atEnd text then return ()
    else if (← peek text) = '"'.toUInt8 then return ()
    else
      let b ← advance text
      modify fun s => { s with line := if b = '\n'.toUInt8 then s.line + 1 else s.line }
      advanceString n

/-- Goes on to the next line feed, or to the end. -/
def skipLine : Part Unit := do
  let rest ← bytesBetween text (← get).curr (source text).length
  match rest.findIdx? (· = '\n'.toUInt8) with
  | some i => modify (·.skip i)
  | none => modify fun s => { s with curr := (source text).length }

/-- Goes on behind the end of the comment, whose opening has been passed. -/
def blockComment : Part (Option LexicalError) := do
  let rest ← bytesBetween text (← get).curr (source text).length
  match find? ['*'.toUInt8, '/'.toUInt8] rest with
  | some i =>
    modify fun s => { s.skip (i + 2) with line := s.line + (rest.take i).count '\n'.toUInt8 }
    return none
  | none =>
    modify fun s => { s with
      line := s.line + rest.count '\n'.toUInt8
      curr := (source text).length }
    return some ⟨.unterminatedComment, (← get).line⟩

/-- A string, whose opening quote has been passed. -/
def parseString : Part (Option LexicalError) := do
  advanceString text ((source text).length + 1)
  if ← atEnd text then return some ⟨.unterminatedString, (← get).line⟩
  else
    let _ ← advance text
    let s ← get
    recognize (.string (← textBetween text (s.start + 1) (s.curr - 1)))
    return none

/-- The value of some digits with at most one point among them. -/
def numberOf (s : String) : Float :=
  Number.ofDigits (s.toList.takeWhile (· ≠ '.')) (s.toList.dropWhile (· ≠ '.')).tail

def passDigits : Part Unit :=
  advanceWhile text (fun b => isDigit (Char.ofUInt8 b)) ((source text).length + 1)

/-- Passes a point and the digits behind it, if there are any. -/
def passFraction : Part Unit := do
  if (← peek text) = '.'.toUInt8 ∧ isDigit (Char.ofUInt8 (← peekNext text)) then
    let _ ← advance text
    passDigits text
  else return ()

/-- A number, whose first digit has been passed. -/
def parseNumber : Part Unit := do
  passDigits text
  passFraction text
  let s ← get
  recognize (.number (numberOf (← textBetween text s.start s.curr)))

/-- The kind of a word. -/
def wordKind (word : List UInt8) : Token.Kind :=
  match Keyword.all.find? (fun k => bytes k.spelling.toList == word) with
  | some k => .keyword k
  | none => .identifier

/-- A word, whose first letter has been passed. -/
def parseIdentifier : Part Unit := do
  advanceWhile text (fun b => isNamePart (Char.ofUInt8 b)) ((source text).length + 1)
  let s ← get
  recognize (wordKind (← bytesBetween text s.start s.curr))

/-- Goes on behind a character that begins nothing. -/
def unexpected : Part (Option LexicalError) := do
  let s ← get
  let c := (← textBetween text s.start (source text).length).toList.headD (Char.ofNat 0xFFFD)
  set { s with curr := s.start + c.utf8Size }
  return some ⟨.unexpectedCharacter c, s.line⟩

/-- What a character begins. -/
inductive Opening where
  | single (s : Symbol)
  /-- A longer symbol if this character follows, and otherwise a shorter one. -/
  | either (second : Char) (longer shorter : Symbol)
  | blank | lineFeed | slash | quote | digit | letter | other

def Opening.of : Char → Opening
  | '(' => .single .leftParen
  | ')' => .single .rightParen
  | '{' => .single .leftBrace
  | '}' => .single .rightBrace
  | ',' => .single .comma
  | '.' => .single .dot
  | '-' => .single .minus
  | '+' => .single .plus
  | ';' => .single .semicolon
  | '%' => .single .percent
  | '?' => .single .question
  | ':' => .single .colon
  | '*' => .either '*' .starStar .star
  | '!' => .either '=' .bangEqual .bang
  | '=' => .either '=' .equalEqual .equal
  | '<' => .either '=' .lessEqual .less
  | '>' => .either '=' .greaterEqual .greater
  | ' ' | '\r' | '\t' => .blank
  | '\n' => .lineFeed
  | '/' => .slash
  | '"' => .quote
  | c => if isDigit c then .digit else if isNameStart c then .letter else .other

/-- Passes what the first byte, which has been passed, begins. -/
def scanOpening : Opening → Part (Option LexicalError)
  | .single s => do
    recognize (.symbol s)
    return none
  | .either second longer shorter => do
    recognize (.symbol (if ← matchByte text second.toUInt8 then longer else shorter))
    return none
  | .blank => return none
  | .lineFeed => do
    modify fun s => { s with line := s.line + 1 }
    return none
  | .slash => do
    if ← matchByte text '/'.toUInt8 then
      skipLine text
      return none
    else if ← matchByte text '*'.toUInt8 then blockComment text
    else
      recognize (.symbol .slash)
      return none
  | .quote => parseString text
  | .digit => do
    parseNumber text
    return none
  | .letter => do
    parseIdentifier text
    return none
  | .other => unexpected text

/-- Passes one lexeme, blank or comment. A recognized lexeme is left pending. -/
def scanToken : Part (Option LexicalError) := do
  scanOpening text (Opening.of (Char.ofUInt8 (← advance text)))

/-- Gives what has been recognized, with its text and its line. -/
def takePending : Part (Option Item) := do
  let s ← get
  match s.pending with
  | none => return none
  | some kind =>
    set { s with pending := none }
    return some (.token ⟨kind, ← textBetween text s.start s.curr, s.line⟩)

/-- The next item, within some rounds; blanks and comments are passed without one. -/
def nextWithin : Nat → Part (Option Item)
  | 0 => throw .endless
  | n + 1 => do
    let s ← get
    if (source text).length < s.curr then return none
    else if s.curr = (source text).length then
      set { s with curr := s.curr + 1 }
      return some (.token (.endOfFile s.line))
    else
      set { s with start := s.curr, pending := none }
      match ← scanToken text with
      | some e => return some (.fault e)
      | none =>
        match ← takePending text with
        | some item => return some item
        | none => nextWithin n

/-- The next item, if any is left. -/
def next : Part (Option Item) := nextWithin text ((source text).length + 1)

end Definitions

variable {text : String} {s : Scanner}

theorem source_eq (text : String) : source text = bytes text.toList := by
  rw [source, toByteArray_eq, List.toList_data_toByteArray]

/-- The bytes that have not been passed. -/
def left (text : String) (s : Scanner) : List UInt8 := (source text).drop s.curr

theorem left_skip (n : Nat) : left text (s.skip n) = (left text s).drop n := List.drop_drop.symm

theorem byteAt_eq {i : Nat} {b : UInt8} (found : (source text)[i]? = some b) :
    byteAt text i s = .ok b s := by
  unfold byteAt
  rw [found]
  rfl

theorem atEnd_eq : atEnd text s = .ok (left text s).isEmpty s := by
  have same : (left text s).isEmpty = decide ((source text).length ≤ s.curr) := by
    rw [Bool.eq_iff_iff, List.isEmpty_iff, left, List.drop_eq_nil_iff, decide_eq_true_eq]
  rw [same]
  rfl

theorem advance_eq {b : UInt8} {rest : List UInt8} (ahead : left text s = b :: rest) :
    advance text s = .ok b (s.skip 1) := by
  have found : (source text)[s.curr]? = some b := by
    rw [← List.head?_drop, show (source text).drop s.curr = b :: rest from ahead, List.head?_cons]
  have access : byteAt text s.curr s = .ok b s := byteAt_eq found
  exact bind_of_ok access

theorem peek_eq : peek text s = .ok ((left text s).headD 0) s := by
  unfold peek
  rw [bind_of_ok atEnd_eq]
  cases ahead : left text s with
  | nil => rfl
  | cons b rest =>
    have found : (source text)[s.curr]? = some b := by
      rw [← List.head?_drop, show (source text).drop s.curr = b :: rest from ahead, List.head?_cons]
    exact byteAt_eq found

theorem peekNext_eq : peekNext text s = .ok ((left text s).tail.headD 0) s := by
  have behind : (left text s).tail = (source text).drop (s.curr + 1) := List.tail_drop
  have reads : peekNext text s =
      (if (source text).length ≤ s.curr + 1 then return 0 else byteAt text (s.curr + 1)) s := rfl
  rw [reads, behind]
  split
  · next short => rw [List.drop_eq_nil_of_le short]; rfl
  · next inside =>
    have bound : s.curr + 1 < (source text).length := Nat.lt_of_not_le inside
    rw [List.drop_eq_getElem_cons bound]
    exact byteAt_eq (List.getElem?_eq_getElem bound)

theorem matchByte_eq (expected : UInt8) : matchByte text expected s =
    if (left text s).head? = some expected then .ok true (s.skip 1) else .ok false s := by
  unfold matchByte
  rw [bind_of_ok atEnd_eq]
  cases ahead : left text s with
  | nil => rfl
  | cons b rest =>
    have peeked : peek text s = .ok b s := by rw [peek_eq, ahead, List.headD_cons]
    change (do if (← peek text) = expected then _ else _) s = _
    rw [bind_of_ok peeked]
    simp only [List.head?_cons, Option.some.injEq]
    split
    · exact bind_of_ok (advance_eq ahead)
    · rfl

theorem bytesBetween_eq {low high : Nat} (order : low ≤ high) (inside : high ≤ (source text).length) :
    bytesBetween text low high s = .ok (((source text).take high).drop low) s := by
  unfold bytesBetween
  rw [if_pos ⟨order, inside⟩]
  rfl

/-- A run of bytes of the kept sort is passed. -/
theorem advanceWhile_eq {kept : UInt8 → Bool} (stops : kept 0 = false) {n : Nat}
    (enough : (left text s).length < n) : advanceWhile text kept n s =
      .ok () (s.skip ((left text s).takeWhile kept).length) := by
  induction n generalizing s with
  | zero => exact absurd enough (Nat.not_lt_zero _)
  | succ n ih =>
    unfold advanceWhile
    rw [bind_of_ok peek_eq]
    cases ahead : left text s with
    | nil =>
      rw [List.headD_nil, if_neg (by rw [stops]; exact Bool.false_ne_true)]
      rfl
    | cons b rest =>
      rw [List.headD_cons]
      cases keep : kept b with
      | false =>
        rw [if_neg Bool.false_ne_true, List.takeWhile_cons_of_neg (by rw [keep]; exact Bool.false_ne_true)]
        rfl
      | true =>
        have after : left text (s.skip 1) = rest := by
          rw [left_skip, ahead, List.drop_one, List.tail_cons]
        have fewer : (left text (s.skip 1)).length < n := by
          rw [after]
          rw [ahead, List.length_cons] at enough
          exact Nat.lt_of_succ_lt_succ enough
        rw [if_pos rfl, bind_of_ok (advance_eq ahead), ih fewer, after,
          List.takeWhile_cons_of_pos keep, List.length_cons, Scanner.skip_skip, Nat.add_comm 1]

/-- What is before the closing quote is passed. -/
theorem advanceString_eq {n : Nat} (enough : (left text s).length < n) : advanceString text n s =
    .ok () { s.skip ((left text s).takeWhile (· ≠ '"'.toUInt8)).length with
      line := s.line + ((left text s).takeWhile (· ≠ '"'.toUInt8)).count '\n'.toUInt8 } := by
  induction n generalizing s with
  | zero => exact absurd enough (Nat.not_lt_zero _)
  | succ n ih =>
    unfold advanceString
    rw [bind_of_ok atEnd_eq]
    cases ahead : left text s with
    | nil => rfl
    | cons b rest =>
      have peeked : peek text s = .ok b s := by rw [peek_eq, ahead, List.headD_cons]
      rw [List.isEmpty_cons, if_neg Bool.false_ne_true, bind_of_ok peeked]
      by_cases closes : b = '"'.toUInt8
      · rw [if_pos closes, List.takeWhile_cons_of_neg (by simp [closes])]
        rfl
      · let after : Scanner := { s with
          curr := s.curr + 1, line := if b = '\n'.toUInt8 then s.line + 1 else s.line }
        have passed : left text after = rest := by
          change (source text).drop (s.curr + 1) = rest
          rw [← List.tail_drop, show (source text).drop s.curr = b :: rest from ahead, List.tail_cons]
        have fewer : (left text after).length < n := by
          rw [passed]
          rw [ahead, List.length_cons] at enough
          exact Nat.lt_of_succ_lt_succ enough
        rw [if_neg closes, bind_of_ok (advance_eq ahead)]
        change advanceString text n after = _
        rw [ih fewer, passed, List.takeWhile_cons_of_pos (by simp [closes]), List.length_cons,
          List.count_cons]
        simp only [after, Scanner.skip, beq_iff_eq]
        congr 2
        · omega
        · split <;> omega

end LoxLang.Bytewise
