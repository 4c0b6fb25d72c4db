import LoxLang.Proofs.Token.Longest

/-! Lexemes that are written apart. No lexeme goes on beyond a space but a string, and a string goes on
no further than to its closing quote. So a lexeme that is followed by a space is scanned as what it is,
whatever it was followed by before, and a text that has lost all but its lexemes keeps its tokens. -/
namespace LoxLang

/-- The token without its line. -/
def Token.content (t : Token) : Token.Kind × String := (t.kind, t.lexeme)

namespace Lexeme

variable {kind kind' : Token.Kind} {front rest : List Char}

theorem isNamePart_of_word {c : Char} (starts : isNameStart c = true)
    (parts : ∀ d ∈ rest, isNamePart d = true) : ∀ d ∈ c :: rest, isNamePart d = true := by
  have start : isNamePart c = true := by rw [isNamePart, starts, Bool.true_or]
  exact List.forall_mem_cons.mpr ⟨start, parts⟩

theorem unblank_of_symbol (s : Symbol) : ∀ d ∈ s.spelling, ¬ isBlank d = true := by
  have none : s.spelling.any isBlank = false := by cases s <;> rfl
  exact List.any_eq_false.mp none

/-- Only a string has a blank in it. -/
theorem quoted_of_blank (lexeme : Lexeme kind front) {d : Char} (blank : isBlank d = true)
    (member : d ∈ front) : ∃ inside, front = '"' :: inside ++ ['"'] ∧ '"' ∉ inside := by
  have apart : ¬ isDigit d = true ∧ ¬ isNamePart d = true ∧ d ≠ '.' := by
    rcases isBlank_iff.mp blank with rfl | rfl | rfl | rfl <;> decide
  obtain ⟨undigit, unnamed, unpointed⟩ := apart
  cases lexeme with
  | symbol s => exact absurd blank (unblank_of_symbol s d member)
  | string unquoted => exact ⟨_, rfl, unquoted⟩
  | whole _ all => exact absurd (all d member) undigit
  | decimal _ all _ all' =>
    obtain within | within := List.mem_append.mp member
    · exact absurd (all d within) undigit
    · obtain point | within := List.mem_cons.mp within
      · exact absurd point unpointed
      · exact absurd (all' d within) undigit
  | keyword k =>
    obtain ⟨c, others, spelled, starts, parts⟩ := k.spelling_eq
    exact absurd (isNamePart_of_word starts parts d (spelled ▸ member)) unnamed
  | identifier starts parts => exact absurd (isNamePart_of_word starts parts d member) unnamed

/-- A lexeme with a blank in it is a string literal. -/
theorem string_of_blank (lexeme : Lexeme kind front) {d : Char} (blank : isBlank d = true)
    (member : d ∈ front) : ∃ text, kind = .string text := by
  obtain ⟨inside, rfl, unquoted⟩ := lexeme.quoted_of_blank blank member
  exact ⟨_, lexeme.kind_unique (.string unquoted)⟩

/-- A lexeme and more text behind a space are no lexeme. -/
theorem not_prolonged (lexeme : Lexeme kind front) (more : List Char) :
    ¬ Lexeme kind' (front ++ ' ' :: more) := by
  intro longer
  obtain ⟨inside, whole, unquoted⟩ := longer.quoted_of_blank (by decide : isBlank ' ' = true) (by simp)
  obtain ⟨c, others, rfl⟩ := List.exists_cons_of_ne_nil lexeme.ne_nil
  obtain ⟨quote, behind⟩ := List.cons.inj whole
  obtain ⟨inside', -, rfl, -⟩ := lexeme.form.of_quote quote
  -- the closing quote of the shorter one is inside the longer one
  obtain ⟨last, final, split⟩ := (List.eq_nil_or_concat (' ' :: more)).resolve_left (List.cons_ne_nil _ _)
  have behind : inside' ++ ['"'] ++ last ++ [final] = inside ++ ['"'] := by
    rw [List.concat_eq_append] at split
    rw [List.append_assoc, ← split]
    exact behind
  obtain ⟨rfl, -⟩ := List.append_inj' behind rfl
  exact unquoted (by simp)

end Lexeme

namespace Scan

variable {kind : Token.Kind} {front rest : List Char} {line : Nat}

/-- Nothing follows, or a space. -/
def Apart (rest : List Char) : Prop := ∀ d, rest.head? = some d → d = ' '

/-- A lexeme is the longest one where a space follows it. -/
theorem longest_of_apart (lexeme : Lexeme kind front) (apart : Apart rest) :
    Longest (front ++ rest) kind front rest where
  split := rfl
  lexeme := lexeme
  longest := by
    intro kind' other found before
    apply Nat.le_of_not_lt
    intro longer
    obtain ⟨tail, rfl⟩ :=
      List.prefix_of_prefix_length_le (List.prefix_append front rest) before (Nat.le_of_lt longer)
    cases tail with
    | nil => simp at longer
    | cons d tail =>
      obtain ⟨more, same⟩ := (List.prefix_append_right_inj front).mp before
      obtain rfl := apart d (same ▸ rfl)
      exact lexeme.not_prolonged tail found

/-- A lexeme does not begin a comment where a space follows it. -/
theorem outside_of_apart (lexeme : Lexeme kind front) (apart : Apart rest) :
    ¬ OpensComment (front ++ rest) := by
  obtain ⟨c, others, rfl⟩ := List.exists_cons_of_ne_nil lexeme.ne_nil
  -- the slash is a lexeme by itself, so the second character is the space
  have second {d : Char} (before : ['/', d] <+: c :: others ++ rest) : d = ' ' := by
    obtain ⟨rfl, behind⟩ := List.cons_prefix_cons.mp before
    obtain ⟨s, -, spelled⟩ := lexeme.form.of_other (by decide) (by decide) (by decide)
    have alone : others = [] := by cases s <;> cases spelled; rfl
    subst alone
    obtain ⟨more, same⟩ := behind
    have same : d :: more = rest := same
    exact apart d (same ▸ rfl)
  rintro (slashes | slashStar)
  · exact absurd (second slashes) (by decide)
  · exact absurd (second slashStar) (by decide)

/-- A lexeme is scanned where a space follows it. -/
theorem items_lexeme (lexeme : Lexeme kind front) (apart : Apart rest) :
    items ⟨front ++ rest, line, false⟩ =
      .token ⟨kind, String.ofList front, line + front.count '\n'⟩ ::
        items ⟨rest, line + front.count '\n', false⟩ := by
  have longest := longest_of_apart lexeme apart
  have outside := outside_of_apart lexeme apart
  obtain ⟨c, others, rfl⟩ := List.exists_cons_of_ne_nil lexeme.ne_nil
  have cut : piece c (others ++ rest) = ⟨.token kind, c :: others, rest⟩ :=
    piece_of_longest outside longest
  rw [List.cons_append, items_cons, cut]
  rfl

theorem items_space (rest : List Char) (line : Nat) :
    items ⟨' ' :: rest, line, false⟩ = items ⟨rest, line, false⟩ := by
  rw [items_cons]
  rfl

/-- The tokens of a text are lexemes of their kinds. -/
theorem Tokenized.lexeme {text : List Char} {items : List Item} (tokenized : Tokenized text line items)
    {t : Token} (member : .token t ∈ items) (inside : t.kind ≠ .endOfFile) :
    Lexeme t.kind t.lexeme.toList := by
  induction tokenized with
  | ended =>
    cases List.mem_singleton.mp member
    exact absurd rfl inside
  | skip _ _ ih => exact ih member
  | take _ longest _ ih =>
    obtain same | later := List.mem_cons.mp member
    · cases same
      rw [String.toList_ofList]
      exact longest.lexeme
    · exact ih later
  | giveUp _ _ ih =>
    obtain same | later := List.mem_cons.mp member
    · cases same
    · exact ih later

/-- Lexemes with a space before each of them are scanned as the tokens that they are. -/
theorem items_spaced {tokens : List Token} (lexemes : ∀ t ∈ tokens, Lexeme t.kind t.lexeme.toList)
    (line : Nat) : ∃ (again : List Token) (stop : Nat),
      items ⟨tokens.flatMap fun t => ' ' :: t.lexeme.toList, line, false⟩ =
        again.map .token ++ [.token (.endOfFile stop)] ∧
      again.map Token.content = tokens.map Token.content := by
  induction tokens generalizing line with
  | nil => exact ⟨[], line, items_nil line, rfl⟩
  | cons t tokens ih =>
    have lexeme := lexemes t List.mem_cons_self
    have apart : Apart (tokens.flatMap fun t => ' ' :: t.lexeme.toList) := by
      cases tokens with
      | nil => nofun
      | cons => exact fun d first => (Option.some.inj first).symm
    obtain ⟨again, stop, rest, same⟩ :=
      ih (fun t' member => lexemes t' (List.mem_cons_of_mem _ member)) (line + t.lexeme.toList.count '\n')
    refine ⟨⟨t.kind, t.lexeme, line + t.lexeme.toList.count '\n'⟩ :: again, stop, ?_, ?_⟩
    · rw [List.flatMap_cons, List.cons_append, items_space, items_lexeme lexeme apart, rest,
        String.ofList_toList]
      rfl
    · rw [List.map_cons, List.map_cons, same]
      rfl

/-- A space between any two of some texts, and one before the first, is a space before each. -/
theorem space_intercalate (first : List Char) (others : List (List Char)) :
    ' ' :: [' '].intercalate (first :: others) = (first :: others).flatMap (' ' :: ·) := by
  induction others generalizing first with
  | nil => simp
  | cons second others ih =>
    rw [List.intercalate_cons_cons, List.flatMap_cons, ← ih second, List.append_assoc]
    rfl

theorem items_intercalate (fronts : List (List Char)) (line : Nat) :
    items ⟨[' '].intercalate fronts, line, false⟩ = items ⟨fronts.flatMap (' ' :: ·), line, false⟩ := by
  cases fronts with
  | nil => rfl
  | cons first others => rw [← space_intercalate, items_space]

end Scan

theorem scan_lexeme {source : String} {t : Token} (member : t ∈ (scan source).1)
    (inside : t.kind ≠ .endOfFile) : Lexeme t.kind t.lexeme.toList := by
  obtain ⟨item, among, same⟩ := List.mem_filterMap.mp member
  cases item with
  | token found =>
    cases same
    exact (Scan.items_tokenized source.toList 1).lexeme among inside
  | fault => cases same

/-- Whatever the text, with or without lexical faults: its lexemes with single spaces between them are
scanned without a fault, into the tokens of the text. -/
theorem lexemes_scan_again (source : String) :
    ∃ own line, (scan source).1 = own ++ [.endOfFile line] ∧ (∀ t ∈ own, t.kind ≠ .endOfFile) ∧
      ∃ again line', scan (" ".intercalate (own.map Token.lexeme)) = (again ++ [.endOfFile line'], []) ∧
        again.map Token.content = own.map Token.content := by
  obtain ⟨own, tokens, single⟩ := scan_end source
  have lexemes (t : Token) (member : t ∈ own) : Lexeme t.kind t.lexeme.toList :=
    scan_lexeme (tokens ▸ List.mem_append_left _ member) (single t member).1
  obtain ⟨again, line', scanned, same⟩ := Scan.items_spaced lexemes 1
  refine ⟨own, _, tokens, fun t member => (single t member).1, again, line', ?_, same⟩
  have items : (Scan.start (" ".intercalate (own.map Token.lexeme))).items =
      again.map .token ++ [.token (.endOfFile line')] := by
    rw [Scan.start, String.toList_intercalate, List.map_map, ← scanned]
    refine (Scan.items_intercalate _ 1).trans ?_
    rw [List.flatMap_map]
    rfl
  simp [scan, items, Item.token?, Item.fault?, List.filterMap_map, Function.comp_def]

end LoxLang
