import Mathlib.Data.Set.Function
import Mathlib.Tactic.Tauto
import LoxLang.Expr.PrefixForm
import LoxLang.Proofs.Expr.Form
import LoxLang.Proofs.Grammar.Building.Expression
import LoxLang.Proofs.Grammar.Recognition
import LoxLang.Proofs.Grammar.Relabeling.Tree
import LoxLang.Proofs.Grammar.Rendering
import LoxLang.Proofs.Number.Whole
import LoxLang.Proofs.Token.Respelling

/-! The prefix form determines the expression. The text of a tree is that of a form, and a form can be read
back: the head of a group and the number of its parts tell the node, a word in place of a part is a name, a
keyword or a number. Only the value of a number has to be looked up by its text. -/
namespace LoxLang
open Grammar

mutual

/-- The literals of an expression, from left to right. -/
def Expr.literals : Expr → List Literal
  | .literal l => [l]
  | .grouping inner => inner.literals
  | .unary _ right => right.literals
  | .binary left _ right => left.literals ++ right.literals
  | .logical left _ right => left.literals ++ right.literals
  | .conditional condition thenBranch elseBranch =>
    condition.literals ++ (thenBranch.literals ++ elseBranch.literals)
  | .variable _ => []
  | .assign _ value => value.literals
  | .call callee _ arguments => callee.literals ++ Expr.literalsOf arguments
  | .get object _ => object.literals
  | .set object _ value => object.literals ++ value.literals
  | .this _ => []
  | .super _ _ => []

def Expr.literalsOf : List Expr → List Literal
  | [] => []
  | e :: rest => e.literals ++ Expr.literalsOf rest

end

mutual

/-- The form of which the prefix form is the text. -/
def Expr.form : Expr → Form
  | .literal l => .word l.text.toList
  | .grouping inner => .group "group".toList [inner.form]
  | .unary operator right => .group operator.lexeme.toList [right.form]
  | .binary left operator right => .group operator.lexeme.toList [left.form, right.form]
  | .logical left operator right => .group operator.lexeme.toList [left.form, right.form]
  | .conditional condition thenBranch elseBranch =>
    .group "conditional".toList [condition.form, thenBranch.form, elseBranch.form]
  | .variable r => .word r.name.lexeme.toList
  | .assign r value => .group ['='] [.word r.name.lexeme.toList, value.form]
  | .call callee _ arguments => .group "call".toList (callee.form :: Expr.formsOf arguments)
  | .get object name => .group ['.'] [object.form, .word name.lexeme.toList]
  | .set object name value =>
    .group ['='] [.group ['.'] [object.form, .word name.lexeme.toList], value.form]
  | .this _ => .word "this".toList
  | .super _ method => .group "super".toList [.word method.lexeme.toList]

def Expr.formsOf : List Expr → List Form
  | [] => []
  | e :: rest => e.form :: Expr.formsOf rest

end

mutual

theorem Expr.prefixForm_toList (e : Expr) : e.prefixForm.toList = e.form.text := by
  cases e with
  | literal | «variable» | this => rfl
  | grouping inner =>
    change ("(group " ++ inner.prefixForm ++ ")").toList =
      '(' :: ("group".toList ++ (' ' :: (inner.form.text ++ [')'])))
    simp [inner.prefixForm_toList]
  | unary operator right =>
    change ("(" ++ operator.lexeme ++ " " ++ right.prefixForm ++ ")").toList =
      '(' :: (operator.lexeme.toList ++ (' ' :: (right.form.text ++ [')'])))
    simp [right.prefixForm_toList]
  | binary left operator right | logical left operator right =>
    change ("(" ++ operator.lexeme ++ " " ++ left.prefixForm ++ " " ++ right.prefixForm ++ ")").toList =
      '(' :: (operator.lexeme.toList ++ (' ' :: (left.form.text ++ (' ' :: (right.form.text ++ [')'])))))
    simp [left.prefixForm_toList, right.prefixForm_toList]
  | conditional condition thenBranch elseBranch =>
    change ("(conditional " ++ condition.prefixForm ++ " " ++ thenBranch.prefixForm ++ " " ++
        elseBranch.prefixForm ++ ")").toList =
      '(' :: ("conditional".toList ++ (' ' :: (condition.form.text ++ (' ' :: (thenBranch.form.text ++
        (' ' :: (elseBranch.form.text ++ [')'])))))))
    simp [condition.prefixForm_toList, thenBranch.prefixForm_toList, elseBranch.prefixForm_toList]
  | assign r value =>
    change ("(= " ++ r.name.lexeme ++ " " ++ value.prefixForm ++ ")").toList =
      '(' :: (['='] ++ (' ' :: (r.name.lexeme.toList ++ (' ' :: (value.form.text ++ [')'])))))
    simp [value.prefixForm_toList]
  | call callee paren arguments =>
    change ("(call " ++ callee.prefixForm ++ argumentsForm arguments ++ ")").toList =
      '(' :: ("call".toList ++ (' ' :: (callee.form.text ++ Form.partsText (formsOf arguments))))
    simp [callee.prefixForm_toList, ← argumentsForm_toList arguments]
  | get object name =>
    change ("(. " ++ object.prefixForm ++ " " ++ name.lexeme ++ ")").toList =
      '(' :: (['.'] ++ (' ' :: (object.form.text ++ (' ' :: (name.lexeme.toList ++ [')'])))))
    simp [object.prefixForm_toList]
  | set object name value =>
    change ("(= (. " ++ object.prefixForm ++ " " ++ name.lexeme ++ ") " ++ value.prefixForm ++ ")").toList =
      '(' :: (['='] ++ (' ' :: ('(' :: (['.'] ++ (' ' :: (object.form.text ++ (' ' :: (name.lexeme.toList ++
        [')'])))))) ++ (' ' :: (value.form.text ++ [')']))))
    simp [object.prefixForm_toList, value.prefixForm_toList]
  | super keyword method =>
    change ("(super " ++ method.lexeme ++ ")").toList =
      '(' :: ("super".toList ++ (' ' :: (method.lexeme.toList ++ [')'])))
    simp

theorem Expr.argumentsForm_toList (es : List Expr) :
    (argumentsForm es).toList ++ [')'] = Form.partsText (formsOf es) := by
  cases es with
  | nil => rfl
  | cons e rest =>
    change (" " ++ e.prefixForm ++ argumentsForm rest).toList ++ [')'] =
      ' ' :: (e.form.text ++ Form.partsText (formsOf rest))
    simp [e.prefixForm_toList, ← argumentsForm_toList rest]

end

/-- Tokens on line zero, references without an identity. -/
abbrev Relabeling.erasing : Relabeling := ⟨fun _ => 0, 0⟩

/-- The expression with the lines of its tokens and the identities of its references left out. -/
def Expr.shape (e : Expr) : Expr := Relabeling.erasing.expr e.bare

/-- The token that a word is. -/
def wordToken (w : List Char) : Token :=
  ⟨(Symbol.ofSpelling? w).elim (Keyword.kindOf w) .symbol, String.ofList w, 0⟩

namespace Form

variable (value : List Char → Float)

/-- The expression that a word is; `value` tells the number of a text. -/
def ofWord (w : List Char) : Expr :=
  if w.head?.any isNameStart then
    match Keyword.kindOf w with
    | .keyword .true_ => .literal (.boolean true)
    | .keyword .false_ => .literal (.boolean false)
    | .keyword .nil_ => .literal .nil
    | .keyword .this_ => .this ⟨0, wordToken w⟩
    | _ => .variable ⟨0, wordToken w⟩
  else .literal (.number (value w))

/-- The name that an expression is. -/
def nameOf : Expr → Token
  | .variable r => r.name
  | _ => .endOfFile 0

/-- The assignment to an expression. -/
def assigned (target value : Expr) : Expr :=
  match target with
  | .get object name => .set object name value
  | _ => .assign ⟨0, nameOf target⟩ value

/-- An operator between its operands. -/
def operation (left : Expr) (operator : Token) (right : Expr) : Expr :=
  match Tier.ofKind? operator.kind with
  | some tier => tier.node left operator right
  | none => .binary left operator right

/-- The expression of which these are the head and the parts. -/
def assemble (head : List Char) : List Expr → Expr
  | [] => .literal .nil
  | first :: others =>
    if head = "call".toList then .call first ⟨.symbol .rightParen, ")", 0⟩ others
    else match others with
      | [] =>
        if head = "group".toList then .grouping first
        else if head = "super".toList then .super ⟨0, wordToken head⟩ (nameOf first)
        else .unary (wordToken head) first
      | [second] =>
        if head = ['.'] then .get first (nameOf second)
        else if head = ['='] then assigned first second
        else operation first (wordToken head) second
      | second :: third :: _ => .conditional first second third

mutual

/-- The expression of a form. -/
def read : Form → Expr
  | .word w => ofWord value w
  | .group head parts => assemble head (readAll parts)

def readAll : List Form → List Expr
  | [] => []
  | part :: rest => part.read :: readAll rest

end

/-- The heads of groups that are no operators, and those with names in place of a part. -/
def heads : List (List Char) := ["call".toList, "group".toList, "super".toList, ['.'], ['=']]

variable {head : List Char}

theorem assemble_call (f : Expr) (arguments : List Expr) :
    assemble "call".toList (f :: arguments) = .call f ⟨.symbol .rightParen, ")", 0⟩ arguments := rfl

theorem assemble_unary (apart : head ∉ heads) (e : Expr) : assemble head [e] = .unary (wordToken head) e := by
  simp only [heads, List.mem_cons, not_or] at apart
  simp only [assemble, apart.1, apart.2.1, apart.2.2.1, if_false]

theorem assemble_operation (apart : head ∉ heads) (l r : Expr) :
    assemble head [l, r] = operation l (wordToken head) r := by
  simp only [heads, List.mem_cons, not_or] at apart
  simp only [assemble, apart.1, apart.2.2.2.1, apart.2.2.2.2.1, if_false]

end Form

section Words

variable {kind : Token.Kind} {cs : List Char}

theorem Symbol.ofSpelling?_of_name {c : Char} {rest : List Char} (starts : isNameStart c = true) :
    Symbol.ofSpelling? (c :: rest) = none := by
  cases found : Symbol.ofSpelling? (c :: rest) with
  | none => rfl
  | some s =>
    obtain ⟨c', rest', spelled, _, _, _, _, unnamed⟩ := s.spelling_eq
    obtain ⟨rfl, -⟩ := List.cons.inj (spelled.symm.trans (Symbol.spelling_of_found found))
    rw [starts] at unnamed
    cases unnamed

/-- A symbol, keyword or name is told by its text. -/
theorem Lexeme.wordToken_kind (lexeme : Lexeme kind cs)
    (word : kind = .identifier ∨ (∃ s, kind = .symbol s) ∨ ∃ k, kind = .keyword k) :
    (wordToken cs).kind = kind := by
  unfold wordToken
  cases lexeme with
  | symbol s => rw [s.ofSpelling?_spelling, Option.elim_some]
  | keyword k =>
    obtain ⟨c, rest, spelled, starts, _⟩ := k.spelling_eq
    rw [← k.kindOf_spelling, spelled, Symbol.ofSpelling?_of_name starts, Option.elim_none]
  | identifier starts parts free =>
    rw [Symbol.ofSpelling?_of_name starts, Option.elim_none, Keyword.kindOf_of_free free]
  | _ => rcases word with word | ⟨_, word⟩ | ⟨_, word⟩ <;> cases word

/-- A token between or before operands. -/
def IsOperator (kind : Token.Kind) : Prop :=
  (∃ tier, Tier.ofKind? kind = some tier) ∨ kind ∈ [.symbol .starStar, .symbol .bang, .symbol .minus]

/-- Operators are words, and none of them is the head of another group. -/
theorem Lexeme.operator (lexeme : Lexeme kind cs) (operator : IsOperator kind) :
    Form.IsWord cs ∧ cs ∉ Form.heads := by
  cases lexeme with
  | symbol s =>
    cases s with
    | leftParen | rightParen | dot | equal => simp [IsOperator, Tier.ofKind?] at operator
    | _ => exact ⟨.of_all (by decide) (by decide), by decide⟩
  | keyword k =>
    cases k with
    | super_ => simp [IsOperator, Tier.ofKind?] at operator
    | _ => exact ⟨.of_all (by decide) (by decide), by decide⟩
  | _ => simp [IsOperator, Tier.ofKind?] at operator

/-- A name is a word, and stands for the variable of the name. -/
theorem Lexeme.name (lexeme : Lexeme .identifier cs) (value : List Char → Float) :
    Form.IsWord cs ∧ Form.ofWord value cs = .variable ⟨0, wordToken cs⟩ := by
  cases lexeme with
  | identifier starts parts free =>
    refine ⟨.of_chars (List.cons_ne_nil _ _) (isNamePart_of_word starts parts) (by decide), ?_⟩
    rw [Form.ofWord, List.head?_cons, Option.any_some, starts, Keyword.kindOf_of_free free]
    rfl

end Words

/-- What is known of the literals of an expression: they are no strings, its numbers are finite, and `value`
tells them from their texts. -/
def Literal.Told (value : List Char → Float) : Literal → Prop
  | .number x => x.isFinite = true ∧ value (Number.display x).toList = x
  | .string _ => False
  | _ => True

/-- A literal is a word, and is what the word stands for. -/
theorem Literal.Told.word {value : List Char → Float} {l : Literal} (told : l.Told value) :
    Form.IsWord l.text.toList ∧ Form.ofWord value l.text.toList = .literal l := by
  cases l with
  | string => exact absurd told id
  | nil => exact ⟨.of_all (by decide) (by decide), rfl⟩
  | boolean b => cases b <;> exact ⟨.of_all (by decide) (by decide), rfl⟩
  | number x =>
    obtain ⟨finite, same⟩ := told
    obtain ⟨⟨c, rest, opens, first⟩, chars⟩ := Number.write_chars finite
    rw [← Number.display_eq_write] at opens chars
    have unnamed : isNameStart c = false := by
      rcases first with digit | rfl
      · exact isNameStart_of_isDigit digit
      · decide
    refine ⟨.of_chars (opens ▸ List.cons_ne_nil _ _) chars (by decide), ?_⟩
    rw [Literal.text, Form.ofWord, same, opens, List.head?_cons, Option.any_some, unnamed]
    rfl

section Recovery

variable (value : List Char → Float)

/-- The form of the expression is one of words, and the expression can be read back from it. -/
structure Expr.Recovered (e : Expr) : Prop where
  wordy : e.form.Wordy
  read : e.form.read value = e.shape

/-- The same of a list of expressions. -/
structure Expr.AllRecovered (es : List Expr) : Prop where
  wordy : Form.AllWordy (Expr.formsOf es)
  read : Form.readAll value (Expr.formsOf es) = Relabeling.erasing.exprs (Expr.bareList es)

/-- What is in the tree can be read back, given what is known of its literals. -/
def Grammar.Tree.Recovered : Tree → Prop
  | .expr e => (∀ l ∈ e.literals, l.Told value) → e.Recovered value
  | .exprs es => (∀ l ∈ Expr.literalsOf es, l.Told value) → Expr.AllRecovered value es
  | _ => True

variable {tokens : List Token} (lexemes : ∀ t ∈ tokens, t.kind ≠ .endOfFile → Lexeme t.kind t.lexeme.toList)
include lexemes

/-- A symbol, a keyword or a name out of the tokens is told by its text. -/
theorem wordToken_of_member {t : Token} (member : t ∈ tokens)
    (word : t.kind = .identifier ∨ (∃ s, t.kind = .symbol s) ∨ ∃ k, t.kind = .keyword k) :
    wordToken t.lexeme.toList = Relabeling.erasing.token t := by
  have inside : t.kind ≠ .endOfFile := by rcases word with word | ⟨_, word⟩ | ⟨_, word⟩ <;> simp [word]
  have kind := (lexemes t member inside).wordToken_kind word
  calc wordToken t.lexeme.toList
    _ = ⟨(wordToken t.lexeme.toList).kind, String.ofList t.lexeme.toList, 0⟩ := rfl
    _ = ⟨t.kind, t.lexeme, 0⟩ := by rw [kind, String.ofList_toList]

/-- The only text of a keyword. -/
theorem keyword_of_member {t : Token} {k : Keyword} (member : t ∈ tokens) (kind : t.kind = .keyword k) :
    wordToken k.spelling.toList = Relabeling.erasing.token t := by
  have lexeme := lexemes t member (by simp [kind])
  have token := wordToken_of_member lexemes member (.inr (.inr ⟨k, kind⟩))
  rw [kind] at lexeme
  generalize t.lexeme.toList = cs at lexeme token
  cases lexeme with
  | keyword => exact token

/-- The only text of a symbol. -/
theorem symbol_of_member {t : Token} {s : Symbol} (member : t ∈ tokens) (kind : t.kind = .symbol s) :
    wordToken s.spelling = Relabeling.erasing.token t := by
  have lexeme := lexemes t member (by simp [kind])
  have token := wordToken_of_member lexemes member (.inr (.inl ⟨s, kind⟩))
  rw [kind] at lexeme
  generalize t.lexeme.toList = cs at lexeme token
  cases lexeme with
  | symbol => exact token

theorem name_recovered {t : Token} (named : IsName tokens t) :
    Form.IsWord t.lexeme.toList ∧
      Form.ofWord value t.lexeme.toList = .variable ⟨0, Relabeling.erasing.token t⟩ := by
  have lexeme := lexemes t named.member (by simp [named.kind])
  obtain ⟨word, read⟩ := (named.kind ▸ lexeme).name value
  exact ⟨word, by rw [read, wordToken_of_member lexemes named.member (.inl named.kind)]⟩

theorem operator_recovered {t : Token} (member : t ∈ tokens) (operator : IsOperator t.kind) :
    Form.IsWord t.lexeme.toList ∧ t.lexeme.toList ∉ Form.heads ∧
      wordToken t.lexeme.toList = Relabeling.erasing.token t := by
  have word : t.kind = .identifier ∨ (∃ s, t.kind = .symbol s) ∨ ∃ k, t.kind = .keyword k := by
    cases kind : t.kind with
    | identifier => exact .inl rfl
    | symbol s => exact .inr (.inl ⟨s, rfl⟩)
    | keyword k => exact .inr (.inr ⟨k, rfl⟩)
    | _ => simp [kind, IsOperator, Tier.ofKind?] at operator
  have inside : t.kind ≠ .endOfFile := by rcases word with word | ⟨_, word⟩ | ⟨_, word⟩ <;> simp [word]
  obtain ⟨single, apart⟩ := (lexemes t member inside).operator operator
  exact ⟨single, apart, wordToken_of_member lexemes member word⟩

variable {value}

theorem recovered_of_built {low high : Nat} {tree : Tree} (built : Built tokens low tree high) :
    tree.Recovered value := by
  induction built with
  | widen _ _ _ ih => exact ih
  | literal =>
    intro told
    obtain ⟨wordy, read⟩ := (told _ List.mem_cons_self).word
    exact ⟨wordy, read⟩
  | grouping _ ih =>
    intro told
    obtain ⟨wordy, read⟩ := ih told
    refine ⟨⟨.of_all (by decide) (by decide), wordy, trivial⟩, ?_⟩
    simp only [Expr.form, Form.read, Form.readAll, read]
    rfl
  | unary member sign _ ih =>
    intro told
    obtain ⟨wordy, read⟩ := ih told
    obtain ⟨word, apart, token⟩ := operator_recovered lexemes member (.inr (List.mem_cons_of_mem _ sign))
    refine ⟨⟨word, wordy, trivial⟩, ?_⟩
    simp only [Expr.form, Form.read, Form.readAll, read, Form.assemble_unary apart, token]
    rfl
  | @operation tier l operator r _ _ _ member chosen _ _ ih ih' =>
    intro told
    have parts : (tier.node l operator r).literals = l.literals ++ r.literals := by cases tier <;> rfl
    have form : (tier.node l operator r).form = .group operator.lexeme.toList [l.form, r.form] := by
      cases tier <;> rfl
    rw [parts, List.forall_mem_append] at told
    obtain ⟨wordy, read⟩ := ih told.1
    obtain ⟨wordy', read'⟩ := ih' told.2
    obtain ⟨word, apart, token⟩ := operator_recovered lexemes member (.inl ⟨tier, chosen⟩)
    refine ⟨form ▸ ⟨word, wordy, wordy', trivial⟩, ?_⟩
    rw [form]
    simp only [Form.read, Form.readAll, read, read', Form.assemble_operation apart, token]
    have kind : Tier.ofKind? (Relabeling.erasing.token operator).kind = some tier := chosen
    rw [Form.operation, kind]
    cases tier <;> rfl
  | @power l operator r _ _ _ member raises _ _ ih ih' =>
    intro told
    rw [show (Expr.binary l operator r).literals = l.literals ++ r.literals from rfl,
      List.forall_mem_append] at told
    obtain ⟨wordy, read⟩ := ih told.1
    obtain ⟨wordy', read'⟩ := ih' told.2
    obtain ⟨word, apart, token⟩ := operator_recovered lexemes member (.inr (by simp [raises]))
    refine ⟨⟨word, wordy, wordy', trivial⟩, ?_⟩
    simp only [Expr.form, Form.read, Form.readAll, read, read', Form.assemble_operation apart, token]
    have kind : Tier.ofKind? (Relabeling.erasing.token operator).kind = none := by
      change Tier.ofKind? operator.kind = none
      rw [raises]
      rfl
    rw [Form.operation, kind]
    rfl
  | @conditional e t f _ _ _ _ _ _ _ ih ih₁ ih₂ =>
    intro told
    simp only [Expr.literals, List.forall_mem_append] at told
    obtain ⟨wordy, read⟩ := ih told.1
    obtain ⟨wordy₁, read₁⟩ := ih₁ told.2.1
    obtain ⟨wordy₂, read₂⟩ := ih₂ told.2.2
    refine ⟨⟨.of_all (by decide) (by decide), wordy, wordy₁, wordy₂, trivial⟩, ?_⟩
    simp only [Expr.form, Form.read, Form.readAll, read, read₁, read₂]
    rfl
  | «variable» named =>
    intro _
    obtain ⟨word, name⟩ := name_recovered value lexemes named
    exact ⟨word, name⟩
  | assign named _ ih =>
    intro told
    obtain ⟨wordy, read⟩ := ih told
    obtain ⟨word, name⟩ := name_recovered value lexemes named
    refine ⟨⟨.of_all (by decide) (by decide), word, wordy, trivial⟩, ?_⟩
    simp only [Expr.form, Form.read, Form.readAll, read, name]
    rfl
  | @call f paren es _ _ _ member closes _ _ ih ih' =>
    intro told
    simp only [Expr.literals, List.forall_mem_append] at told
    obtain ⟨wordy, read⟩ := ih told.1
    obtain ⟨wordy', read'⟩ := ih' told.2
    refine ⟨⟨.of_all (by decide) (by decide), wordy, wordy'⟩, ?_⟩
    have token := symbol_of_member lexemes member closes
    simp only [Expr.form, Form.read, Form.readAll, read, read', Form.assemble_call, Expr.shape, Expr.bare,
      Relabeling.expr, ← token]
    rfl
  | get named _ ih =>
    intro told
    obtain ⟨wordy, read⟩ := ih told
    obtain ⟨word, name⟩ := name_recovered value lexemes named
    refine ⟨⟨.of_all (by decide) (by decide), wordy, word, trivial⟩, ?_⟩
    simp only [Expr.form, Form.read, Form.readAll, read, name]
    rfl
  | set named _ _ ih ih' =>
    intro told
    simp only [Expr.literals, List.forall_mem_append] at told
    obtain ⟨wordy, read⟩ := ih told.1
    obtain ⟨wordy', read'⟩ := ih' told.2
    obtain ⟨word, name⟩ := name_recovered value lexemes named
    have target : Form.Wordy (.group ['.'] [_, .word _]) := ⟨.of_all (by decide) (by decide), wordy, word, trivial⟩
    refine ⟨⟨.of_all (by decide) (by decide), target, wordy', trivial⟩, ?_⟩
    simp only [Expr.form, Form.read, Form.readAll, read, read', name]
    rfl
  | this member kind =>
    intro _
    have token := keyword_of_member lexemes member kind
    refine ⟨.of_all (by decide) (by decide), ?_⟩
    rw [Expr.shape, Expr.bare, Relabeling.expr, Relabeling.reference, ← token]
    rfl
  | super member kind named =>
    intro _
    have token := keyword_of_member lexemes member kind
    obtain ⟨word, name⟩ := name_recovered value lexemes named
    refine ⟨⟨.of_all (by decide) (by decide), word, trivial⟩, ?_⟩
    simp only [Expr.form, Form.read, Form.readAll, name, Expr.shape, Expr.bare, Relabeling.expr,
      Relabeling.reference, ← token]
    rfl
  | noExprs => exact fun _ => ⟨trivial, rfl⟩
  | moreExprs _ _ ih ih' =>
    intro told
    simp only [Expr.literalsOf, List.forall_mem_append] at told
    obtain ⟨wordy, read⟩ := ih told.1
    obtain ⟨wordy', read'⟩ := ih' told.2
    refine ⟨⟨wordy, wordy'⟩, ?_⟩
    simp only [Expr.formsOf, Form.readAll, read, read']
    rfl
  | _ => trivial

end Recovery

/-- What is read from a text can be read back from its prefix form. -/
theorem recovered_of_read {value : List Char → Float} {source : String} {e : Expr}
    (read : (readExpression (scan source).1).1 = some e) (told : ∀ l ∈ e.literals, l.Told value) :
    e.Recovered value := by
  obtain ⟨after, given, -, -⟩ := assignment_of_read (Prod.ext read rfl)
  have among : Among (scan source).1 (.start (scan source).1) :=
    ⟨List.takeWhile_subset _ , start_closed _⟩
  have built := ((expressionsBuild _ _).assignment among).ok_of given
  exact recovered_of_built (fun t => scan_lexeme) built.2 told

/-- The prefix form determines an expression without strings and with finite numbers, but for the lines of
its tokens and the identities of its references, as far as the digits of a number determine the number. -/
theorem prefix_form_determines_expression {source source' : String} {e e' : Expr}
    (read : (readExpression (scan source).1).1 = some e)
    (read' : (readExpression (scan source').1).1 = some e')
    (stringless : ∀ text, .string text ∉ e.literals ++ e'.literals)
    (finite : ∀ x, .number x ∈ e.literals ++ e'.literals → x.isFinite = true)
    (digits : ∀ x y, .number x ∈ e.literals ++ e'.literals → .number y ∈ e.literals ++ e'.literals →
      Number.WrittenAlike x y → x = y)
    (same : e.prefixForm = e'.prefixForm) : e.shape = e'.shape := by
  let numbers : Set Float := {x | .number x ∈ e.literals ++ e'.literals}
  let text (x : Float) : List Char := (Number.display x).toList
  have injective : Set.InjOn text numbers := by
    intro x among y among' alike
    have shown : Number.display x = Number.display y := String.toList_inj.mp alike
    rw [Number.display_eq_write, Number.display_eq_write] at shown
    exact digits x y among among' (Number.writtenAlike_of_write (finite x among) (finite y among') shown)
  have told : ∀ l ∈ e.literals ++ e'.literals, l.Told (Function.invFunOn text numbers) := by
    intro l among
    cases l with
    | string text => exact stringless text among
    | number x => exact ⟨finite x among, injective.leftInvOn_invFunOn among⟩
    | boolean | nil => trivial
  rw [List.forall_mem_append] at told
  obtain ⟨wordy, back⟩ := recovered_of_read read told.1
  obtain ⟨wordy', back'⟩ := recovered_of_read read' told.2
  have written : e.form.text ++ [] = e'.form.text ++ [] := by
    rw [← e.prefixForm_toList, ← e'.prefixForm_toList, same]
  have ends : Form.EndsWord [] := nofun
  obtain ⟨form, -⟩ := Form.text_unique wordy wordy' ends ends written
  rw [← back, ← back', form]

/-- A difference that is read from one line and from two. -/
theorem difference_on_two_lines :
    let tree (line : Nat) : Expr := .binary
      (.call (.variable ⟨0, ⟨.identifier, "f", 1⟩⟩) ⟨.symbol .rightParen, ")", line⟩ [.literal (.number 1)])
      ⟨.symbol .minus, "-", line⟩ (.literal (.number 2.5))
    (tree 1).prefixForm = "(- (call f 1) 2.5)" ∧ (tree 2).shape = (tree 1).shape := by
  intro tree
  let tokens (x y : Float) (line : Nat) : List Token :=
    [⟨.identifier, "f", 1⟩, ⟨.symbol .leftParen, "(", 1⟩, ⟨.number x, "1", 1⟩, ⟨.symbol .rightParen, ")", line⟩,
      ⟨.symbol .minus, "-", line⟩, ⟨.number y, "2.5", line⟩, .endOfFile line]
  -- for any numbers: reading does not compute with them
  have read (x y : Float) (line : Nat) : (readExpression (tokens x y line)).1 = some (.binary
      (.call (.variable ⟨0, ⟨.identifier, "f", 1⟩⟩) ⟨.symbol .rightParen, ")", line⟩ [.literal (.number x)])
      ⟨.symbol .minus, "-", line⟩ (.literal (.number y))) := by cbv
  have scanned : (scan "f(1) - 2.5").1 = tokens 1 2.5 1 := by decide +kernel
  have scanned' : (scan "f(1\n) - 2.5").1 = tokens 1 2.5 2 := by decide +kernel
  have written (line : Nat) : (tree line).prefixForm = "(- (call f 1) 2.5)" := by
    have one : Number.display 1 = "1" := by decide +kernel
    have half : Number.display 2.5 = "2.5" := by decide +kernel
    change "(- " ++ ("(call f" ++ (" " ++ Number.display 1 ++ "") ++ ")") ++ " " ++ Number.display 2.5 ++ ")" = _
    rw [one, half]
    rfl
  have among (l : Literal) : l ∈ (tree 2).literals ++ (tree 1).literals ↔ l = .number 1 ∨ l = .number 2.5 := by
    change l ∈ [.number 1, .number 2.5, .number 1, .number 2.5] ↔ _
    simp only [List.mem_cons, List.not_mem_nil, or_false]
    tauto
  have apart : ¬ Number.WrittenAlike 1 2.5 ∧ ¬ Number.WrittenAlike 2.5 1 := by
    unfold Number.WrittenAlike
    decide +kernel
  refine ⟨written 1, prefix_form_determines_expression (by rw [scanned', read]) (by rw [scanned, read]) ?_ ?_ ?_
    ((written 2).trans (written 1).symm)⟩
  · intro text member
    obtain absent | absent := (among _).mp member <;> cases absent
  · intro x member
    obtain ⟨⟨⟩⟩ | ⟨⟨⟩⟩ := (among _).mp member <;> decide +kernel
  · intro x y member member' alike
    obtain ⟨⟨⟩⟩ | ⟨⟨⟩⟩ := (among _).mp member <;> obtain ⟨⟨⟩⟩ | ⟨⟨⟩⟩ := (among _).mp member'
    · rfl
    · exact absurd alike apart.1
    · exact absurd alike apart.2
    · rfl

end LoxLang
