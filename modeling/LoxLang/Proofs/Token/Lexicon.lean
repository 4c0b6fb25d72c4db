import LoxLang.Proofs.Token.Spelling

/-! The lexicon: which texts are lexemes, and of which kind, without saying how they are found in a longer
text. A lexeme's first character tells what it can be, and a text is a lexeme of one kind only. -/
namespace LoxLang

/-- The lexicon: which texts are lexemes of a kind. -/
inductive Lexeme : Token.Kind → List Char → Prop
  | symbol (s : Symbol) : Lexeme (.symbol s) s.spelling
  | string {inside : List Char} (unquoted : '"' ∉ inside) :
    Lexeme (.string (String.ofList inside)) ('"' :: inside ++ ['"'])
  | whole {digits : List Char} (nonempty : digits ≠ []) (all : ∀ d ∈ digits, isDigit d = true) :
    Lexeme (.number (Number.ofDigits digits [])) digits
  | decimal {digits fraction : List Char} (nonempty : digits ≠ [])
    (all : ∀ d ∈ digits, isDigit d = true) (nonempty' : fraction ≠ [])
    (all' : ∀ d ∈ fraction, isDigit d = true) :
    Lexeme (.number (Number.ofDigits digits fraction)) (digits ++ '.' :: fraction)
  | keyword (k : Keyword) : Lexeme (.keyword k) k.spelling.toList
  | identifier {c : Char} {rest : List Char} (starts : isNameStart c = true)
    (parts : ∀ d ∈ rest, isNamePart d = true) (free : ∀ k : Keyword, k.spelling.toList ≠ c :: rest) :
    Lexeme .identifier (c :: rest)

theorem isDigit_iff {c : Char} : isDigit c = true ↔ 48 ≤ c.toNat ∧ c.toNat ≤ 57 := by
  simp only [isDigit, Bool.and_eq_true, decide_eq_true_eq]
  exact Iff.rfl

theorem isBlank_iff {c : Char} : isBlank c = true ↔ c = ' ' ∨ c = '\t' ∨ c = '\r' ∨ c = '\n' := by
  simp only [isBlank, Bool.or_eq_true, decide_eq_true_eq, or_assoc]

theorem isNameStart_iff {c : Char} : isNameStart c = true ↔
    (97 ≤ c.toNat ∧ c.toNat ≤ 122) ∨ (65 ≤ c.toNat ∧ c.toNat ≤ 90) ∨ c = '_' := by
  simp only [isNameStart, Bool.or_eq_true, Bool.and_eq_true, decide_eq_true_eq, or_assoc]
  exact Iff.rfl

theorem isNameStart_of_isDigit {c : Char} (digit : isDigit c = true) : isNameStart c = false := by
  have range := isDigit_iff.mp digit
  rw [← Bool.not_eq_true, isNameStart_iff]
  rintro (small | large | rfl)
  · omega
  · omega
  · exact absurd range (by decide)

theorem Symbol.ofSpelling?_spelling (s : Symbol) : Symbol.ofSpelling? s.spelling = some s := by
  cases s <;> decide

theorem Symbol.spelling_of_found {cs : List Char} {s : Symbol} (found : Symbol.ofSpelling? cs = some s) :
    s.spelling = cs := by
  have same := List.find?_some found
  exact beq_iff_eq.mp same

theorem Keyword.ofSpelling?_spelling (k : Keyword) : Keyword.ofSpelling? k.spelling = some k := by
  cases k <;> decide

/-- A symbol has one character or two, and begins as no other lexeme does. -/
theorem Symbol.spelling_eq (s : Symbol) : ∃ c rest, s.spelling = c :: rest ∧ rest.length ≤ 1 ∧
    isBlank c = false ∧ c ≠ '"' ∧ isDigit c = false ∧ isNameStart c = false := by
  cases s <;> exact ⟨_, _, rfl, by decide⟩

theorem Keyword.spelling_eq (k : Keyword) : ∃ c rest, k.spelling.toList = c :: rest ∧
    isNameStart c = true ∧ ∀ d ∈ rest, isNamePart d = true := by
  cases k <;> exact ⟨_, _, rfl, rfl, List.all_eq_true.mp rfl⟩

/-- The kind of a word. -/
def Keyword.kindOf (word : List Char) : Token.Kind :=
  match Keyword.ofSpelling? (String.ofList word) with
  | some k => .keyword k
  | none => .identifier

theorem Keyword.kindOf_spelling (k : Keyword) : Keyword.kindOf k.spelling.toList = .keyword k := by
  unfold Keyword.kindOf
  rw [String.ofList_toList, Keyword.ofSpelling?_spelling]

theorem Keyword.kindOf_of_free {word : List Char} (free : ∀ k : Keyword, k.spelling.toList ≠ word) :
    Keyword.kindOf word = .identifier := by
  unfold Keyword.kindOf
  split
  · next k found =>
    have spelled := congrArg String.toList (Keyword.spelling_of_found found)
    rw [String.toList_ofList] at spelled
    exact absurd spelled.symm (free k)
  · rfl

/-- A word is a lexeme of its kind. -/
theorem Lexeme.word {c : Char} {rest : List Char} (starts : isNameStart c = true)
    (parts : ∀ d ∈ rest, isNamePart d = true) : Lexeme (Keyword.kindOf (c :: rest)) (c :: rest) := by
  by_cases free : ∀ k : Keyword, k.spelling.toList ≠ c :: rest
  · rw [Keyword.kindOf_of_free free]
    exact .identifier starts parts free
  · obtain ⟨k, spelled⟩ := Classical.not_forall_not.mp free
    rw [← spelled, Keyword.kindOf_spelling]
    exact .keyword k

namespace Lexeme

variable {kind : Token.Kind} {c : Char} {text : List Char}

/-- What a lexeme is like that begins with `c`. -/
inductive Form (c : Char) (text : List Char) : Token.Kind → Prop
  | symbol {s : Symbol} (spelled : s.spelling = c :: text) (unblank : isBlank c = false)
    (unquoted : c ≠ '"') (undigit : isDigit c = false) (unnamed : isNameStart c = false) :
    Form c text (.symbol s)
  | string {inside : List Char} (quote : c = '"') (closed : text = inside ++ ['"'])
    (unquoted : '"' ∉ inside) : Form c text (.string (String.ofList inside))
  | whole (digit : isDigit c = true) (all : ∀ d ∈ text, isDigit d = true) :
    Form c text (.number (Number.ofDigits (c :: text) []))
  | decimal {digits fraction : List Char} (digit : isDigit c = true)
    (split : text = digits ++ '.' :: fraction) (all : ∀ d ∈ digits, isDigit d = true)
    (nonempty : fraction ≠ []) (all' : ∀ d ∈ fraction, isDigit d = true) :
    Form c text (.number (Number.ofDigits (c :: digits) fraction))
  | word (starts : isNameStart c = true) (parts : ∀ d ∈ text, isNamePart d = true) :
    Form c text (Keyword.kindOf (c :: text))

theorem form_of_eq {whole : List Char} (lexeme : Lexeme kind whole) (same : whole = c :: text) :
    Form c text kind := by
  cases lexeme with
  | symbol s =>
    obtain ⟨c', rest, spelled, _, unblank, unquoted, undigit, unnamed⟩ := s.spelling_eq
    obtain ⟨rfl, rfl⟩ := List.cons.inj (spelled.symm.trans same)
    exact .symbol spelled unblank unquoted undigit unnamed
  | string unquoted =>
    obtain ⟨rfl, rfl⟩ := List.cons.inj same
    exact .string rfl rfl unquoted
  | whole _ all =>
    subst same
    exact .whole (all c List.mem_cons_self) fun d member => all d (List.mem_cons_of_mem _ member)
  | @decimal digits fraction nonempty all nonempty' all' =>
    cases digits with
    | nil => exact absurd rfl nonempty
    | cons d digits =>
      obtain ⟨rfl, rfl⟩ := List.cons.inj same
      exact .decimal (all d List.mem_cons_self) rfl
        (fun d' member => all d' (List.mem_cons_of_mem _ member)) nonempty' all'
  | keyword k =>
    obtain ⟨c', rest, spelled, starts, parts⟩ := k.spelling_eq
    obtain ⟨rfl, rfl⟩ := List.cons.inj (spelled.symm.trans same)
    have kind := k.kindOf_spelling
    rw [spelled] at kind
    exact kind ▸ .word starts parts
  | identifier starts parts free =>
    obtain ⟨rfl, rfl⟩ := List.cons.inj same
    have kind := Keyword.kindOf_of_free free
    exact kind ▸ .word starts parts

theorem form (lexeme : Lexeme kind (c :: text)) : Form c text kind := lexeme.form_of_eq rfl

theorem ne_nil {front : List Char} (lexeme : Lexeme kind front) : front ≠ [] := by
  cases lexeme with
  | symbol s =>
    obtain ⟨c, rest, spelled, _⟩ := s.spelling_eq
    simp [spelled]
  | keyword k =>
    obtain ⟨c, rest, spelled, _⟩ := k.spelling_eq
    simp [spelled]
  | whole nonempty _ => exact nonempty
  | _ => simp

namespace Form

variable (form : Form c text kind)
include form

theorem of_name (starts : isNameStart c = true) :
    kind = Keyword.kindOf (c :: text) ∧ ∀ d ∈ text, isNamePart d = true := by
  cases form with
  | word _ parts => exact ⟨rfl, parts⟩
  | symbol _ _ _ _ unnamed => rw [starts] at unnamed; cases unnamed
  | string quote => subst quote; cases starts
  | whole digit => rw [isNameStart_of_isDigit digit] at starts; cases starts
  | decimal digit => rw [isNameStart_of_isDigit digit] at starts; cases starts

theorem of_digit (digit : isDigit c = true) :
    (kind = .number (Number.ofDigits (c :: text) []) ∧ ∀ d ∈ text, isDigit d = true) ∨
      ∃ digits fraction, kind = .number (Number.ofDigits (c :: digits) fraction) ∧
        text = digits ++ '.' :: fraction ∧ (∀ d ∈ digits, isDigit d = true) ∧ fraction ≠ [] ∧
        ∀ d ∈ fraction, isDigit d = true := by
  cases form with
  | whole _ all => exact .inl ⟨rfl, all⟩
  | decimal _ split all nonempty all' => exact .inr ⟨_, _, rfl, split, all, nonempty, all'⟩
  | symbol _ _ _ undigit => rw [digit] at undigit; cases undigit
  | string quote => subst quote; cases digit
  | word starts => rw [isNameStart_of_isDigit digit] at starts; cases starts

theorem of_quote (quote : c = '"') :
    ∃ inside, kind = .string (String.ofList inside) ∧ text = inside ++ ['"'] ∧ '"' ∉ inside := by
  subst quote
  cases form with
  | string _ closed unquoted => exact ⟨_, rfl, closed, unquoted⟩
  | symbol _ _ unquoted => exact absurd rfl unquoted
  | whole digit => cases digit
  | decimal digit => cases digit
  | word starts => cases starts

theorem of_other (unquoted : c ≠ '"') (undigit : isDigit c = false) (unnamed : isNameStart c = false) :
    ∃ s : Symbol, kind = .symbol s ∧ s.spelling = c :: text := by
  cases form with
  | symbol spelled => exact ⟨_, rfl, spelled⟩
  | string quote => exact absurd quote unquoted
  | whole digit => rw [undigit] at digit; cases digit
  | decimal digit => rw [undigit] at digit; cases digit
  | word starts => rw [unnamed] at starts; cases starts

theorem unblank : isBlank c = false := by
  have blanks (d : Char) (blank : isBlank d = true) :
      isDigit d = false ∧ isNameStart d = false ∧ d ≠ '"' := by
    rcases isBlank_iff.mp blank with rfl | rfl | rfl | rfl <;> decide
  rw [← Bool.not_eq_true]
  intro blank
  obtain ⟨undigit, unnamed, unquoted⟩ := blanks c blank
  obtain ⟨s, -, spelled⟩ := form.of_other unquoted undigit unnamed
  obtain ⟨_, _, spelled', _, unblank, _⟩ := s.spelling_eq
  obtain ⟨rfl, -⟩ := List.cons.inj (spelled.symm.trans spelled')
  rw [unblank] at blank
  cases blank

end Form

/-- Where digits are followed by a point, they are all of the digits. -/
theorem digits_of_point {digits fraction : List Char} (all : ∀ d ∈ digits, isDigit d = true)
    (before : digits ++ '.' :: fraction <+: text) :
    ∃ more, text.takeWhile isDigit = digits ∧ text.dropWhile isDigit = '.' :: (fraction ++ more) := by
  obtain ⟨more, rfl⟩ := before
  refine ⟨more, ?_, ?_⟩
  · rw [List.append_assoc, List.takeWhile_append_of_pos all]
    simp [isDigit]
  · rw [List.append_assoc, List.dropWhile_append_of_pos all]
    simp [isDigit]

/-- A text is a lexeme of one kind only. -/
theorem kind_unique {kind' : Token.Kind} {front : List Char} (lexeme : Lexeme kind front)
    (lexeme' : Lexeme kind' front) : kind = kind' := by
  cases front with
  | nil => exact absurd rfl lexeme.ne_nil
  | cons c text =>
    have form := lexeme.form
    have form' := lexeme'.form
    by_cases quote : c = '"'
    · obtain ⟨inside, rfl, closed, _⟩ := form.of_quote quote
      obtain ⟨inside', rfl, closed', _⟩ := form'.of_quote quote
      rw [List.append_cancel_right (closed.symm.trans closed')]
    cases digit : isDigit c with
    | true =>
      have point {digits fraction : List Char} (all : ∀ d ∈ digits ++ '.' :: fraction, isDigit d = true) :
          False := absurd (all '.' (by simp)) (by decide)
      obtain ⟨rfl, all⟩ | ⟨digits, fraction, rfl, split, among, _⟩ := form.of_digit digit
      · obtain ⟨rfl, _⟩ | ⟨_, _, _, rfl, _⟩ := form'.of_digit digit
        · rfl
        · exact (point all).elim
      · obtain ⟨_, all⟩ | ⟨digits', fraction', rfl, split', among', _⟩ := form'.of_digit digit
        · exact (point (split ▸ all)).elim
        · obtain ⟨more, taken, dropped⟩ := digits_of_point among ⟨[], (List.append_nil _).trans split.symm⟩
          obtain ⟨more', taken', dropped'⟩ := digits_of_point among' ⟨[], (List.append_nil _).trans split'.symm⟩
          obtain rfl := taken.symm.trans taken'
          rw [List.cons.inj (List.append_cancel_left (split.symm.trans split')) |>.2]
    | false =>
      cases starts : isNameStart c with
      | true => rw [(form.of_name starts).1, (form'.of_name starts).1]
      | false =>
        obtain ⟨s, rfl, spelled⟩ := form.of_other quote digit starts
        obtain ⟨s', rfl, spelled'⟩ := form'.of_other quote digit starts
        have same := s.ofSpelling?_spelling
        rw [spelled, ← spelled', s'.ofSpelling?_spelling] at same
        rw [Option.some.inj same]

end Lexeme

end LoxLang
