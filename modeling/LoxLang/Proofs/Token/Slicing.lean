import LoxLang.Proofs.Token.Bytewise
import LoxLang.Proofs.Token.Longest

/-! What a scan over bytes passes. Between two lexemes the scan stands between two characters; from there
every lexeme, blank and comment is passed byte by byte, and it is the piece that is cut off the front of
the characters. What is searched for is an ASCII character, so the scan leaves off between characters. -/

namespace LoxLang.Bytewise
open Text Scan

variable {text : String} {front middle ahead cs : List Char} {s after : Scanner} {c : Char}

/-- The scan is between characters: these have been passed, and these are ahead. -/
structure At (text : String) (front ahead : List Char) (s : Scanner) : Prop where
  whole : text.toList = front ++ ahead
  curr : s.curr = (bytes front).length

namespace At

theorem source (here : At text front ahead s) : source text = bytes front ++ bytes ahead := by
  rw [source_eq, here.whole, bytes_append]

theorem left (here : At text front ahead s) : left text s = bytes ahead := by
  rw [Bytewise.left, here.source, here.curr, List.drop_left]

theorem size (here : At text front ahead s) :
    (Bytewise.source text).length = s.curr + (bytes ahead).length := by
  rw [here.source, here.curr, List.length_append]

/-- Some of the characters ahead are passed. -/
theorem passed (here : At text front (middle ++ ahead) s)
    (moved : after.curr = s.curr + (bytes middle).length) : At text (front ++ middle) ahead after where
  whole := by rw [here.whole, List.append_assoc]
  curr := by rw [moved, here.curr, bytes_append, List.length_append]

end At

/-- A character begins behind some of the characters of a text. -/
theorem isValid_of_append (whole : text.toList = front ++ ahead) :
    (String.Pos.Raw.mk (bytes front).length).IsValid text := by
  have joined : text = String.ofList front ++ String.ofList ahead := by
    rw [← String.ofList_append, ← whole, String.ofList_toList]
  refine String.Pos.Raw.isValid_iff_exists_append.mpr ⟨_, _, joined, ?_⟩
  rw [String.Pos.Raw.ext_iff, String.byteIdx_rawEndPos, ← String.size_toByteArray, toByteArray_ofList,
    List.size_toByteArray]

/-- A slice between two characters is made of the characters in between. -/
theorem textBetween_eq (whole : text.toList = front ++ (middle ++ ahead)) {low high : Nat}
    (lower : low = (bytes front).length) (upper : high = (bytes (front ++ middle)).length) :
    textBetween text low high s = .ok (String.ofList middle) s := by
  have valid : low ≤ high ∧ (String.Pos.Raw.mk low).IsValid text ∧
      (String.Pos.Raw.mk high).IsValid text := by
    have whole' : text.toList = front ++ middle ++ ahead := by rw [whole, List.append_assoc]
    refine ⟨?_, lower ▸ isValid_of_append whole, upper ▸ isValid_of_append whole'⟩
    rw [lower, upper, bytes_append, List.length_append]
    exact Nat.le_add_right _ _
  have slice : text.extract ⟨⟨low⟩, valid.2.1⟩ ⟨⟨high⟩, valid.2.2⟩ = String.ofList middle := by
    rw [← String.toByteArray_inj, String.toByteArray_extract, toByteArray_ofList, toByteArray_eq, whole,
      ← extract_bytes front middle ahead, ← lower, ← upper]
  unfold textBetween
  rw [dif_pos valid, slice]
  rfl

/-- A slice of the bytes between two characters holds the bytes of the characters in between. -/
theorem bytesBetween_at (whole : text.toList = front ++ (middle ++ ahead)) {low high : Nat}
    (lower : low = (bytes front).length) (upper : high = (bytes (front ++ middle)).length) :
    bytesBetween text low high s = .ok (bytes middle) s := by
  have all : source text = bytes (front ++ middle) ++ bytes ahead := by
    rw [source_eq, whole, ← List.append_assoc, bytes_append]
  have order : low ≤ high := by
    rw [lower, upper, bytes_append, List.length_append]
    exact Nat.le_add_right _ _
  have inside : high ≤ (source text).length := by
    rw [all, upper, List.length_append]
    exact Nat.le_add_right _ _
  rw [bytesBetween_eq order inside, all, upper, List.take_left, bytes_append, lower, List.drop_left]

/-- What is left of the bytes is that of the characters ahead. -/
theorem At.rest (here : At text front ahead s) :
    bytesBetween text s.curr (Bytewise.source text).length s = .ok (bytes ahead) s := by
  have whole : text.toList = front ++ (ahead ++ []) := by rw [List.append_nil, here.whole]
  apply bytesBetween_at whole here.curr
  rw [here.source, bytes_append]

/-- The character ahead is passed if it is this one. -/
theorem At.matchByte (here : At text front ahead s) {d : Char} (ascii : d.toNat < 128) :
    Bytewise.matchByte text d.toUInt8 s =
      if ahead.head? = some d then .ok true (s.skip 1) else .ok false s := by
  rw [matchByte_eq, here.left]
  exact if_congr (head?_bytes ascii ahead) rfl rfl

/-- An ASCII character that is ahead is passed by a step of one byte. -/
theorem At.step (here : At text front (c :: ahead) s) (ascii : c.toNat < 128)
    (moved : after.curr = s.curr + 1) : At text (front ++ [c]) ahead after := by
  have taken : after.curr = s.curr + (bytes [c]).length := by
    rw [moved, bytes_cons, encode_ascii ascii]
    rfl
  exact here.passed taken

/-- What the scan has made of a piece: it stands behind it, has counted its line feeds, and has found
what it is. -/
structure Cut (text : String) (front : List Char) (s : Scanner) (p : Piece)
    (result : Option LexicalError) (after : Scanner) : Prop where
  behind : At text (front ++ p.consumed) p.rest after
  start : after.start = s.start
  line : after.line = s.line + p.consumed.count '\n'
  found : match p.found with
    | .blank => result = none ∧ after.pending = none
    | .token kind => result = none ∧ after.pending = some kind
    | .fault cause => result = some ⟨cause, after.line⟩

/-- From the second state on, the part of the scan cuts this piece off. -/
def Cuts (part : Part (Option LexicalError)) (text : String) (front : List Char) (s s' : Scanner)
    (p : Piece) : Prop := ∃ result after, part s' = .ok result after ∧ Cut text front s p result after

variable {s' : Scanner} {consumed rest : List Char}

/-- A lexeme is recognized behind it. -/
theorem recognized_cut (kind : Token.Kind) (behind : At text (front ++ consumed) rest s')
    (start : s'.start = s.start) (line : s'.line = s.line + consumed.count '\n') :
    Cut text front s ⟨.token kind, consumed, rest⟩ none { s' with pending := some kind } :=
  ⟨⟨behind.whole, behind.curr⟩, start, line, rfl, rfl⟩

/-- A blank is passed and nothing is recognized. -/
theorem blank_cut (behind : At text (front ++ consumed) rest s') (start : s'.start = s.start)
    (line : s'.line = s.line + consumed.count '\n') (nothing : s'.pending = none) :
    Cut text front s ⟨.blank, consumed, rest⟩ none s' := ⟨behind, start, line, rfl, nothing⟩

theorem count_single (unbroken : c ≠ '\n') : [c].count '\n' = 0 := by
  simp [unbroken]

theorem isDigit_narrow (c : Char) (wide : 128 ≤ c.toNat) : isDigit c = false := by
  rw [← Bool.not_eq_true, isDigit_iff]
  omega

theorem isNameStart_narrow (c : Char) (wide : 128 ≤ c.toNat) : isNameStart c = false := by
  rw [← Bool.not_eq_true, isNameStart_iff]
  rintro (small | large | rfl)
  · omega
  · omega
  · exact absurd wide (by decide)

theorem isNamePart_narrow (c : Char) (wide : 128 ≤ c.toNat) : isNamePart c = false := by
  rw [isNamePart, isNameStart_narrow c wide, isDigit_narrow c wide]
  rfl

/-- The characters ahead are passed as long as they are of a sort of ASCII characters. -/
theorem At.advanceWhile (here : At text front ahead s) {keeps : Char → Bool}
    (narrow : ∀ c, 128 ≤ c.toNat → keeps c = false) (stops : keeps (Char.ofUInt8 0) = false) :
    ∃ after, Bytewise.advanceWhile text (fun b => keeps (Char.ofUInt8 b))
        ((Bytewise.source text).length + 1) s = .ok () after ∧
      At text (front ++ ahead.takeWhile keeps) (ahead.dropWhile keeps) after ∧
      after.start = s.start ∧ after.line = s.line := by
  have enough : (Bytewise.left text s).length < (Bytewise.source text).length + 1 := by
    rw [here.left, here.size]
    omega
  have split := here
  rw [← List.takeWhile_append_dropWhile (p := keeps) (l := ahead)] at split
  refine ⟨s.skip (bytes (ahead.takeWhile keeps)).length, ?_, split.passed rfl, rfl, rfl⟩
  rw [advanceWhile_eq stops enough, here.left, takeWhile_bytes (kept_iff narrow)]

/-- The bytes of a word tell its kind. -/
theorem wordKind_bytes (word : List Char) : wordKind (bytes word) = Keyword.kindOf word := by
  have same (k : Keyword) :
      (bytes k.spelling.toList == bytes word) = (k.spelling == String.ofList word) := by
    rw [Bool.eq_iff_iff, beq_iff_eq, beq_iff_eq]
    refine ⟨fun equal => ?_, fun equal => ?_⟩
    · rw [← bytes_injective equal, String.ofList_toList]
    · rw [equal, String.toList_ofList]
  cases known : Keyword.all.find? (·.spelling == String.ofList word) with
  | none => simp only [wordKind, Keyword.kindOf, Keyword.ofSpelling?, same, known]
  | some k => simp only [wordKind, Keyword.kindOf, Keyword.ofSpelling?, same, known]

/-- Digits, and a point and more digits behind it, are read as they are written. -/
theorem numberOf_digits {digits : List Char} (all : ∀ d ∈ digits, isDigit d = true) :
    numberOf (String.ofList digits) = Number.ofDigits digits [] := by
  have plain : ∀ d ∈ digits, decide (d ≠ '.') = true := by
    intro d member
    rw [decide_eq_true_eq]
    rintro rfl
    exact absurd (all _ member) (by decide)
  unfold numberOf
  rw [String.toList_ofList, List.takeWhile_eq_self_iff.mpr plain, List.dropWhile_eq_nil_iff.mpr plain,
    List.tail_nil]

theorem numberOf_decimal {digits fraction : List Char} (all : ∀ d ∈ digits, isDigit d = true) :
    numberOf (String.ofList (digits ++ '.' :: fraction)) = Number.ofDigits digits fraction := by
  have plain : ∀ d ∈ digits, decide (d ≠ '.') = true := by
    intro d member
    rw [decide_eq_true_eq]
    rintro rfl
    exact absurd (all _ member) (by decide)
  unfold numberOf
  rw [String.toList_ofList, List.takeWhile_append_of_pos plain, List.dropWhile_append_of_pos plain,
    List.takeWhile_cons_of_neg (by simp), List.dropWhile_cons_of_neg (by simp), List.append_nil,
    List.tail_cons]

theorem ascii_of_kept {keeps : Char → Bool} (narrow : ∀ c, 128 ≤ c.toNat → keeps c = false)
    (kept : keeps c = true) : c.toNat < 128 := by
  apply Nat.lt_of_not_le
  intro wide
  rw [narrow c wide] at kept
  cases kept

theorem count_kept (keeps : Char → Bool) (stops : keeps '\n' = false) (all : ∀ d ∈ cs, keeps d = true) :
    cs.count '\n' = 0 := by
  rw [List.count_eq_zero]
  intro member
  rw [all _ member] at stops
  cases stops

/-- A point is passed with the digits behind it. -/
theorem passFraction_point {d : Char} (here : At text front ('.' :: d :: cs) s) (digit : isDigit d = true) :
    ∃ after, passFraction text s = .ok () after ∧
      At text (front ++ '.' :: d :: cs.takeWhile isDigit) (cs.dropWhile isDigit) after ∧
      after.start = s.start ∧ after.line = s.line := by
  have ahead : left text s = '.'.toUInt8 :: bytes (d :: cs) := here.left
  have behind : At text (front ++ ['.']) (d :: cs) (s.skip 1) := here.step (by decide) rfl
  have follows : isDigit (Char.ofUInt8 ((bytes (d :: cs)).headD 0)) = true := by
    rw [kept_headD isDigit_narrow (by decide)]
    exact digit
  have peeked : peek text s = .ok '.'.toUInt8 s := by rw [peek_eq, ahead, List.headD_cons]
  have peeked' : peekNext text s = .ok ((bytes (d :: cs)).headD 0) s := by
    rw [peekNext_eq, ahead, List.tail_cons]
  obtain ⟨after, passes, behind, start, line⟩ := behind.advanceWhile isDigit_narrow (by decide)
  rw [List.takeWhile_cons_of_pos digit, List.dropWhile_cons_of_pos digit, List.append_assoc] at behind
  refine ⟨after, ?_, behind, start, line⟩
  unfold passFraction
  rw [bind_of_ok peeked, bind_of_ok peeked', if_pos ⟨rfl, follows⟩, bind_of_ok (advance_eq ahead)]
  exact passes

/-- Nothing is passed where no digit follows a point. -/
theorem passFraction_whole (here : At text front ahead s)
    (whole : ∀ d cs, ahead = '.' :: d :: cs → isDigit d = false) : passFraction text s = .ok () s := by
  have without : ¬ ((bytes ahead).headD 0 = '.'.toUInt8 ∧
      isDigit (Char.ofUInt8 ((bytes ahead).tail.headD 0)) = true) := by
    rintro ⟨point, digit⟩
    rw [headD_bytes (by decide) (by decide)] at point
    cases ahead with
    | nil => cases point
    | cons c cs =>
      cases point
      change isDigit (Char.ofUInt8 ((bytes cs).headD 0)) = true at digit
      rw [kept_headD isDigit_narrow (by decide)] at digit
      cases cs with
      | nil => cases digit
      | cons d cs => exact absurd digit (by rw [List.head?_cons, Option.any_some, whole d cs rfl]; nofun)
  have peeked : peek text s = .ok ((bytes ahead).headD 0) s := by rw [peek_eq, here.left]
  have peeked' : peekNext text s = .ok ((bytes ahead).tail.headD 0) s := by rw [peekNext_eq, here.left]
  unfold passFraction
  rw [bind_of_ok peeked, bind_of_ok peeked', if_neg without]
  rfl

/-- The characters of a string are passed up to a quote. -/
theorem At.advanceString (here : At text front ahead s) :
    ∃ after, Bytewise.advanceString text ((Bytewise.source text).length + 1) s = .ok () after ∧
      At text (front ++ ahead.takeWhile (· ≠ '"')) (ahead.dropWhile (· ≠ '"')) after ∧
      after.start = s.start ∧ after.line = s.line + (ahead.takeWhile (· ≠ '"')).count '\n' := by
  have taken : (Bytewise.left text s).takeWhile (· ≠ '"'.toUInt8) = bytes (ahead.takeWhile (· ≠ '"')) := by
    rw [here.left, takeWhile_bytes (differs_iff (by decide))]
  have enough : (Bytewise.left text s).length < (Bytewise.source text).length + 1 := by
    rw [here.left, here.size]
    omega
  have passes := advanceString_eq enough
  rw [taken, count_bytes (by decide)] at passes
  have split := here
  rw [← List.takeWhile_append_dropWhile (p := (· ≠ '"')) (l := ahead)] at split
  exact ⟨_, passes, split.passed rfl, rfl, rfl⟩

section Parts

variable (here : At text front (c :: cs) s) (begun : s.start = s.curr)
include here begun

/-- The lexeme that has been passed is sliced. -/
theorem slice_eq (behind : At text (front ++ consumed) rest s') (start : s'.start = s.start) :
    textBetween text s'.start s'.curr s' = .ok (String.ofList consumed) s' := by
  have whole := behind.whole
  rw [List.append_assoc] at whole
  exact textBetween_eq whole (start.trans (begun.trans here.curr)) behind.curr

/-- A word is passed to its end. -/
theorem parseIdentifier_cuts (starts : isNameStart c = true) :
    Cuts (do parseIdentifier text; return none) text front s (s.skip 1) (wordPiece c cs) := by
  have part : isNamePart c = true := by rw [isNamePart, starts, Bool.true_or]
  have first : At text (front ++ [c]) cs (s.skip 1) :=
    here.step (ascii_of_kept isNamePart_narrow part) rfl
  obtain ⟨after, passes, behind, start, line⟩ := first.advanceWhile isNamePart_narrow (by decide)
  rw [List.append_assoc, List.singleton_append] at behind
  have whole := behind.whole
  rw [List.append_assoc] at whole
  have slice := bytesBetween_at (s := after) whole (start.trans (begun.trans here.curr)) behind.curr
  have parsed : parseIdentifier text (s.skip 1) = .ok () { after with
      pending := some (wordKind (bytes (c :: cs.takeWhile isNamePart))) } := by
    unfold parseIdentifier
    rw [bind_of_ok passes]
    exact bind_of_ok slice
  rw [wordKind_bytes] at parsed
  have unbroken := count_kept isNamePart (by decide) (kept_cons part cs)
  exact ⟨none, _, bind_of_ok parsed, recognized_cut _ behind start (by rw [unbroken]; exact line)⟩

/-- A number that has been passed is sliced and read. -/
theorem number_cuts (behind : At text (front ++ consumed) rest after) (start : after.start = s.start)
    (line : after.line = s.line) (unbroken : consumed.count '\n' = 0) {value : Float}
    (reads : numberOf (String.ofList consumed) = value)
    (passes : (do passDigits text; passFraction text) s' = .ok () after) :
    Cuts (do parseNumber text; return none) text front s s' ⟨.token (.number value), consumed, rest⟩ := by
  obtain ⟨_, middle, digits, fraction⟩ := bind_eq_ok passes
  have slice := slice_eq here begun behind start
  have parsed : parseNumber text s' = .ok () { after with pending := some (.number value) } := by
    unfold parseNumber
    rw [bind_of_ok digits, bind_of_ok fraction, ← reads]
    exact bind_of_ok slice
  exact ⟨none, _, bind_of_ok parsed, recognized_cut _ behind start (by rw [unbroken]; exact line)⟩

/-- A number is passed to its end. -/
theorem parseNumber_cuts (digit : isDigit c = true) :
    Cuts (do parseNumber text; return none) text front s (s.skip 1) (numberPiece c cs) := by
  have first : At text (front ++ [c]) cs (s.skip 1) := here.step (ascii_of_kept isDigit_narrow digit) rfl
  obtain ⟨middle, passes, behind, start, line⟩ := first.advanceWhile isDigit_narrow (by decide)
  rw [List.append_assoc, List.singleton_append] at behind
  have digits := kept_cons digit cs
  have unbroken := count_kept isDigit (by decide) digits
  have alone (none : passFraction text middle = .ok () middle) :
      Cuts (do parseNumber text; return Option.none) text front s (s.skip 1)
        ⟨.token (.number (Number.ofDigits (c :: cs.takeWhile isDigit) [])), c :: cs.takeWhile isDigit,
          cs.dropWhile isDigit⟩ :=
    number_cuts here begun behind start line unbroken (numberOf_digits digits)
      ((bind_of_ok passes).trans none)
  unfold numberPiece
  split
  · next d more dropped =>
    rw [dropped] at behind
    split
    · next more_digits =>
      obtain ⟨after, fraction, behind', start', line'⟩ := passFraction_point behind more_digits
      rw [List.append_assoc] at behind'
      have decimal : numberOf (String.ofList (c :: cs.takeWhile isDigit ++ '.' :: d :: more.takeWhile isDigit)) =
          Number.ofDigits (c :: cs.takeWhile isDigit) (d :: more.takeWhile isDigit) := numberOf_decimal digits
      have unbroken' : (c :: cs.takeWhile isDigit ++ '.' :: d :: more.takeWhile isDigit).count '\n' = 0 := by
        have behind_point := count_kept isDigit (by decide) (kept_cons more_digits more)
        rw [List.count_append, unbroken, List.count_cons_of_ne (by decide), behind_point]
      exact number_cuts here begun behind' (start'.trans start) (line'.trans line) unbroken' decimal
        ((bind_of_ok passes).trans fraction)
    · next other =>
      have undigit : isDigit d = false := Bool.eq_false_iff.mpr other
      exact dropped ▸ alone (passFraction_whole behind (by rintro _ _ ⟨⟩; exact undigit))
  · next other =>
    exact alone (passFraction_whole behind fun d more same => absurd same (other d more))

/-- A string is passed with its closing quote, or there is none and everything is passed. -/
theorem parseString_cuts (quote : c = '"') :
    Cuts (parseString text) text front s (s.skip 1) (stringPiece cs) := by
  subst quote
  have first : At text (front ++ ['"']) cs (s.skip 1) := here.step (by decide) rfl
  let inside := cs.takeWhile (· ≠ '"')
  obtain ⟨middle, passes, behind, start, line⟩ := first.advanceString
  change At text (front ++ ['"'] ++ inside) _ middle at behind
  change middle.line = s.line + inside.count '\n' at line
  unfold stringPiece
  dsimp only
  split
  · next q rest dropped =>
    have stops := List.head?_dropWhile_not (· ≠ '"') cs
    rw [dropped] at stops
    obtain rfl : q = '"' := by simpa using stops
    rw [dropped] at behind
    have ahead : left text middle = '"'.toUInt8 :: bytes rest := by
      rw [behind.left, bytes_single (by decide)]
    have ended : atEnd text middle = .ok false middle := by rw [atEnd_eq, ahead, List.isEmpty_cons]
    have closed : At text (front ++ ('"' :: inside ++ ['"'])) rest (middle.skip 1) := by
      have moved : (middle.skip 1).curr = middle.curr + 1 := rfl
      have closed := behind.step (by decide) moved
      rwa [List.append_assoc, List.append_assoc] at closed
    -- both quotes are one byte each, so what is between them is cut out at whole characters
    have slice : textBetween text ((middle.skip 1).start + 1) ((middle.skip 1).curr - 1) (middle.skip 1) =
        .ok (String.ofList inside) (middle.skip 1) := by
      have whole := behind.whole
      rw [List.append_assoc] at whole
      refine textBetween_eq whole ?_ behind.curr
      rw [Scanner.skip_start, start, Scanner.skip_start, begun]
      exact first.curr
    have counted : ('"' :: inside ++ ['"']).count '\n' = inside.count '\n' := by
      rw [List.count_append, List.count_cons_of_ne (by decide), count_single (by decide), Nat.add_zero]
    refine ⟨none, { middle.skip 1 with pending := some (.string (String.ofList inside)) }, ?_,
      recognized_cut _ closed start (by rw [counted]; exact line)⟩
    unfold parseString
    rw [bind_of_ok passes, bind_of_ok ended, if_neg Bool.false_ne_true, bind_of_ok (advance_eq ahead)]
    exact bind_of_ok slice
  · next dropped =>
    rw [dropped] at behind
    have ended : atEnd text middle = .ok true middle := by
      rw [atEnd_eq, behind.left, bytes_nil, List.isEmpty_nil]
    -- without a closing quote all that is left has been passed
    have all : inside = cs := by
      have whole := List.takeWhile_append_dropWhile (p := (· ≠ '"')) (l := cs)
      rwa [dropped, List.append_nil] at whole
    have counted : ('"' :: cs).count '\n' = inside.count '\n' := by
      rw [List.count_cons_of_ne (by decide), all]
    rw [all, List.append_assoc, List.singleton_append] at behind
    refine ⟨some ⟨.unterminatedString, middle.line⟩, middle, ?_, behind, start, ?_, rfl⟩
    · unfold parseString
      rw [bind_of_ok passes, bind_of_ok ended, if_pos rfl]
      rfl
    · rw [counted]
      exact line

/-- A character that begins nothing is passed with all its bytes. -/
theorem unexpected_cuts (unbroken : c ≠ '\n') : Cuts (unexpected text) text front s (s.skip 1)
    ⟨.fault (.unexpectedCharacter c), [c], cs⟩ := by
  have whole : text.toList = front ++ (c :: cs ++ []) := by rw [List.append_nil, here.whole]
  have upper : (source text).length = (bytes (front ++ c :: cs)).length := by
    rw [here.source, bytes_append]
  have slice : textBetween text s.start (source text).length (s.skip 1) =
      .ok (String.ofList (c :: cs)) (s.skip 1) := textBetween_eq whole (begun.trans here.curr) upper
  have first : (String.ofList (c :: cs)).toList.headD (Char.ofNat 0xFFFD) = c := by
    rw [String.toList_ofList, List.headD_cons]
  let after : Scanner := { s with curr := s.start + c.utf8Size }
  have moved : after.curr = s.curr + (bytes [c]).length := by
    rw [bytes_cons, bytes_nil, List.append_nil, String.length_utf8EncodeChar, ← begun]
  have started : (get : Part Scanner) (s.skip 1) = .ok (s.skip 1) (s.skip 1) := rfl
  refine ⟨some ⟨.unexpectedCharacter c, s.line⟩, after, ?_, ?_⟩
  · rw [unexpected, bind_of_ok started, Scanner.skip_start, bind_of_ok slice, first]
    rfl
  · exact ⟨here.passed moved, rfl, by rw [count_single unbroken]; rfl, rfl⟩

end Parts

/-- The bytes between here and the end of a comment are those of the characters in between. -/
theorem find?_commentEnd (cs : List Char) :
    match throughCommentEnd? cs with
    | some (inside, _) => ∃ before, inside = before ++ ['*', '/'] ∧
        find? ['*'.toUInt8, '/'.toUInt8] (bytes cs) = some (bytes before).length
    | none => find? ['*'.toUInt8, '/'.toUInt8] (bytes cs) = none := by
  fun_induction throughCommentEnd? cs with
  | case1 rest =>
    refine ⟨[], rfl, ?_⟩
    rw [bytes_single (by decide), bytes_single (by decide), find?, if_pos ⟨bytes rest, rfl⟩]
    rfl
  | case2 c rest other ih =>
    have later : find? ['*'.toUInt8, '/'.toUInt8] (bytes (c :: rest)) =
        (find? ['*'.toUInt8, '/'.toUInt8] (bytes rest)).map ((bytes [c]).length + ·) := by
      by_cases star : c = '*'
      · subst star
        have apart : ¬ ['*'.toUInt8, '/'.toUInt8] <+: '*'.toUInt8 :: bytes rest := by
          intro prefixed
          obtain ⟨more, slash⟩ := (List.cons_prefix_cons.mp prefixed).2
          have first : rest.head? = some '/' := (head?_bytes (by decide) rest).mp (by rw [← slash]; rfl)
          obtain ⟨rest', rfl⟩ := List.head?_eq_some_iff.mp first
          exact other rest' rfl rfl
        rw [bytes_single (by decide), find?, if_neg apart]
        congr 1
        funext i
        exact Nat.add_comm i 1
      · have absent : '*'.toUInt8 ∉ String.utf8EncodeChar c := fun member =>
          star ((byte_eq_iff (by decide) member).mp rfl)
        rw [bytes_cons, find?_append absent]
        simp [bytes_cons]
    cases found : throughCommentEnd? rest with
    | none =>
      rw [found] at ih
      dsimp only at ih
      rw [later, ih]
      rfl
    | some pair =>
      rw [found] at ih
      obtain ⟨before, split, ih⟩ := ih
      refine ⟨c :: before, congrArg (c :: ·) split, ?_⟩
      rw [later, ih, Option.map_some, ← List.length_append, ← bytes_append, List.singleton_append]
  | case3 => rfl

/-- The line is passed up to its line feed. -/
theorem skipLine_at (here : At text front ahead s) : ∃ after, skipLine text s = .ok () after ∧
    At text (front ++ ahead.takeWhile (· ≠ '\n')) (ahead.dropWhile (· ≠ '\n')) after ∧
      after.start = s.start ∧ after.line = s.line ∧ after.pending = s.pending := by
  have split := here
  rw [← List.takeWhile_append_dropWhile (p := (· ≠ '\n')) (l := ahead)] at split
  let after := s.skip (bytes (ahead.takeWhile (· ≠ '\n'))).length
  refine ⟨after, ?_, split.passed rfl, rfl, rfl, rfl⟩
  have distance := findIdx?_getD '\n'.toUInt8 (bytes ahead)
  rw [takeWhile_bytes (differs_iff (by decide))] at distance
  have started : (get : Part Scanner) s = .ok s s := rfl
  rw [skipLine, bind_of_ok started, bind_of_ok here.rest]
  cases found : (bytes ahead).findIdx? (· = '\n'.toUInt8) with
  | some i =>
    rw [found, Option.getD_some] at distance
    rw [distance]
    rfl
  | none =>
    rw [found, Option.getD_none] at distance
    dsimp only
    rw [here.size, distance]
    rfl

section Parts

variable (here : At text front ('/' :: cs) s)
include here

/-- A comment that ends with the line is passed up to the line feed. -/
theorem skipLine_cuts {more : List Char} (opens : cs = '/' :: more) (nothing : s.pending = none) :
    Cuts (do skipLine text; return none) text front s ((s.skip 1).skip 1) (lineComment cs) := by
  subst opens
  have first : At text (front ++ ['/']) ('/' :: more) (s.skip 1) := here.step (by decide) rfl
  have second : At text (front ++ ['/'] ++ ['/']) more ((s.skip 1).skip 1) := first.step (by decide) rfl
  obtain ⟨after, passes, behind, start, line, pending⟩ := skipLine_at second
  have slash : decide ('/' ≠ '\n') = true := by decide
  have unbroken : ('/' :: '/' :: more.takeWhile (· ≠ '\n')).count '\n' = 0 := by
    have none : (more.takeWhile (· ≠ '\n')).count '\n' = 0 :=
      count_kept (· ≠ '\n') (by decide) fun _ => List.mem_takeWhile_imp
    rw [List.count_cons_of_ne (by decide), List.count_cons_of_ne (by decide), none]
  rw [List.append_assoc, List.append_assoc] at behind
  unfold lineComment
  rw [List.takeWhile_cons_of_pos (p := (· ≠ '\n')) slash, List.dropWhile_cons_of_pos (p := (· ≠ '\n')) slash]
  exact ⟨none, after, bind_of_ok passes, blank_cut behind start (by rw [unbroken]; exact line)
    (pending.trans nothing)⟩

/-- A comment with an end is passed with it, or there is none and everything is passed. -/
theorem blockComment_cuts {more : List Char} (opens : cs = '*' :: more) (nothing : s.pending = none) :
    Cuts (blockComment text) text front s ((s.skip 1).skip 1) (Scan.blockComment more) := by
  subst opens
  have first : At text (front ++ ['/']) ('*' :: more) (s.skip 1) := here.step (by decide) rfl
  have second : At text (front ++ ['/'] ++ ['*']) more ((s.skip 1).skip 1) := first.step (by decide) rfl
  have searched := find?_commentEnd more
  have started : (get : Part Scanner) ((s.skip 1).skip 1) = .ok ((s.skip 1).skip 1) ((s.skip 1).skip 1) := rfl
  have reads := second.rest
  unfold Scan.blockComment
  cases found : throughCommentEnd? more with
  | some pair =>
    obtain ⟨inside, rest⟩ := pair
    have split := throughCommentEnd?_append found
    rw [found] at searched
    obtain ⟨before, rfl, searched⟩ := searched
    let after : Scanner := { ((s.skip 1).skip 1).skip ((bytes before).length + 2) with
      line := s.line + before.count '\n' }
    have behind : At text (front ++ ('/' :: '*' :: (before ++ ['*', '/']))) rest after := by
      rw [← split] at second
      have moved : after.curr = ((s.skip 1).skip 1).curr + (bytes (before ++ ['*', '/'])).length := by
        rw [bytes_append, List.length_append]
        rfl
      have passed := second.passed moved
      rwa [List.append_assoc, List.append_assoc] at passed
    have counted : ('/' :: '*' :: (before ++ ['*', '/'])).count '\n' = before.count '\n' := by
      rw [List.count_cons_of_ne (by decide), List.count_cons_of_ne (by decide), List.count_append]
      rfl
    have lines : ((bytes more).take (bytes before).length).count '\n'.toUInt8 = before.count '\n' := by
      rw [← split, List.append_assoc, bytes_append, List.take_left, count_bytes (by decide)]
    refine ⟨none, after, ?_, blank_cut behind rfl (by rw [counted]) nothing⟩
    rw [blockComment, bind_of_ok started, bind_of_ok reads, searched]
    simp only [lines]
    rfl
  | none =>
    rw [found] at searched
    dsimp only at searched ⊢
    let after : Scanner := { (s.skip 1).skip 1 with
      line := s.line + more.count '\n', curr := (source text).length }
    have behind : At text (front ++ ('/' :: '*' :: more)) [] after := by
      have all := second
      rw [← List.append_nil more] at all
      have moved : after.curr = ((s.skip 1).skip 1).curr + (bytes more).length := second.size
      have passed := all.passed moved
      rwa [List.append_assoc, List.append_assoc] at passed
    have counted : ('/' :: '*' :: more).count '\n' = more.count '\n' := by
      rw [List.count_cons_of_ne (by decide), List.count_cons_of_ne (by decide)]
    refine ⟨some ⟨.unterminatedComment, after.line⟩, after, ?_, behind, rfl, by rw [counted], rfl⟩
    rw [blockComment, bind_of_ok started, bind_of_ok reads, searched]
    dsimp only
    rw [count_bytes (by decide)]
    rfl

end Parts

end LoxLang.Bytewise
