import LoxLang.Proofs.Grammar.Completeness.Statement
import LoxLang.Proofs.Grammar.Soundness.Statement

/-! The rules read a token list without a fault exactly if it is derived from the grammar. -/
namespace LoxLang.Grammar
open Cursor

variable {ts rest : List Token.Kind}

/-- What the rules make of the tokens that a derivation covers. The condition on what follows is the
one under which the rule for the phrase stops there. -/
def Recognized : Phrase → List Token.Kind → List Token.Kind → Prop
  | .program, ts, rest => rest = [] → Accepts program ts [.endOfFile]
  | .declaration, ts, rest => rest.head? ≠ some (.keyword .else_) → Accepts declaration ts rest
  | .classDecl, ts, rest | .funDecl, ts, rest => Accepts declaration ts rest
  | .superclass, ts, rest => ts = .symbol .less :: .identifier :: rest
  | .function, ts, rest => ∀ role, Accepts (routine · role) ts rest
  | .parameters count, ts, rest => rest.head? = some (.symbol .rightParen) →
    ∀ before, before + count ≤ 255 → Accepts (parameters · before) ts rest
  | .varDecl, ts, rest => ∃ tail, ts = .keyword .var_ :: tail ∧ Accepts varDeclaration tail rest
  | .initializer, ts, rest => Loose 1 rest →
    ∃ value, ts = .symbol .equal :: value ∧ Accepts assignment value rest
  | .statement, ts, rest | .forStmt, ts, rest | .ifStmt, ts, rest | .printStmt, ts, rest
  | .returnStmt, ts, rest | .whileStmt, ts, rest => Settles statement ts rest
  | .exprStmt, ts, rest => Accepts expressionStatement ts rest
  | .forFirst, ts, rest => Accepts forInitializer ts rest
  | .elseBranch, ts, rest => ∃ more, ts = .keyword .else_ :: more ∧ Settles statement more rest
  | .block, ts, rest => ∃ tail, ts = .symbol .leftBrace :: tail ∧ Accepts block tail rest
  | .assignment, ts, rest => Loose 1 rest → Accepts assignment ts rest
  | .receiver, ts, rest => ∀ value, rest = .identifier :: value → Loose 10 value →
    Yields call ts value fun e => ∃ object name, e = .get object name
  | .conditional, ts, rest => Loose 2 rest → Accepts conditional ts rest
  | .branches, ts, rest => Loose 2 rest → ∃ middle other, ts = .symbol .question :: middle ∧
    Accepts assignment middle (.symbol .colon :: other) ∧ Accepts conditional other rest
  | .tier t, ts, rest => Loose t.rank rest → Accepts (binary · t) ts rest
  | .operation t, ts, rest => Loose (t.rank + 1) rest → ∃ operator right,
    ts = operator :: right ∧ operator ∈ t.operators ∧ Accepts (operand · t) right rest
  | .power, ts, rest => Loose 9 rest → Accepts power ts rest
  | .exponent, ts, rest => Loose 9 rest →
    ∃ other, ts = .symbol .starStar :: other ∧ Accepts power other rest
  | .unary, ts, rest => Loose 10 rest → Accepts unary ts rest
  | .call, ts, rest => Calls ts rest
  | .suffix, ts, rest | .many .suffix, ts, rest => Continues ts rest
  | .arguments count, ts, rest => rest.head? = some (.symbol .rightParen) →
    ∀ before, before + count ≤ 255 → Accepts (arguments · before) ts rest
  | .primary, ts, rest => Accepts primary ts rest
  | .many (.operation t), ts, rest => Loose t.rank rest →
    ∀ left, Accepts (binaryRest · t left) ts rest
  | .many .declaration, ts, rest =>
    (∀ after, rest = .symbol .rightBrace :: after → Accepts blockDeclarations ts rest) ∧
      (rest = [.endOfFile] → Accepts program ts rest)
  | .many .function, ts, rest =>
    ∀ after, rest = .symbol .rightBrace :: after → Accepts methods ts rest
  | .many _, _, _ => True
  | .optional p, ts, rest => ts = rest ∨ Recognized p ts rest

theorem recognized_operand {t : Tier} (loose : Loose (t.rank + 1) rest)
    (inner : Recognized t.operands ts rest) : Accepts (operand · t) ts rest := by
  cases t with
  | factor => exact operand_of_power (inner loose)
  | or_ => exact operand_of_tighter (t := .or_) rfl (inner loose)
  | and_ => exact operand_of_tighter (t := .and_) rfl (inner loose)
  | equality => exact operand_of_tighter (t := .equality) rfl (inner loose)
  | comparison => exact operand_of_tighter (t := .comparison) rfl (inner loose)
  | term => exact operand_of_tighter (t := .term) rfl (inner loose)

/-- A declaration is followed by another, or by what follows all of them. -/
theorem declarations_closed (others : Derives (.many .declaration) ts rest)
    (closed : rest.head? ≠ some (.keyword .else_)) : ts.head? ≠ some (.keyword .else_) := by
  obtain rfl | begins := others.opens
  · exact closed
  · exact begins.head_ne rfl

theorem recognized_done (p : Phrase) : Recognized (.many p) rest rest := by
  cases p with
  | suffix => exact continues_refl
  | operation t =>
    intro loose left n reported c here
    exact (binaryRest_done left loose here).mono fun _ _ ⟨there, _⟩ => ⟨there, trivial⟩
  | declaration =>
    refine ⟨?_, ?_⟩
    · rintro after rfl
      exact blockDeclarations_done
    · rintro rfl
      exact program_done
  | function =>
    rintro after rfl
    exact methods_done
  | _ => trivial

theorem recognized_more {p : Phrase} {ts other rest : List Token.Kind} (first : Derives p ts other)
    (others : Derives (.many p) other rest) (once : Recognized p ts other)
    (again : Recognized (.many p) other rest) : Recognized (.many p) ts rest := by
  cases p with
  | suffix => exact Continues.trans once again
  | operation t =>
    intro loose left
    obtain ⟨operator, right, rfl, member, accepts⟩ := once (loose.of_operations others)
    exact binaryRest_more left member accepts (again loose)
  | declaration =>
    have begins : Begins opensDeclaration ts := first.opens
    refine ⟨?_, ?_⟩
    · rintro after rfl
      have closed := declarations_closed others (by nofun)
      exact blockDeclarations_more begins (once closed) (again.1 after rfl)
    · rintro rfl
      have closed := declarations_closed others (by nofun)
      exact program_more begins (once closed) (again.2 rfl)
  | function =>
    rintro after rfl
    have begins : Begins [Token.Kind.identifier].contains ts := first.opens
    exact methods_more begins (once _) (again after rfl)
  | _ => trivial

/-- An optional expression before a symbol that begins none. -/
theorem recognized_optional {closing : Symbol}
    (value : Derives (.optional .assignment) ts (.symbol closing :: rest))
    (recognized : Recognized (.optional .assignment) ts (.symbol closing :: rest))
    (loose : grip (.symbol closing) < 1) :
    ts = .symbol closing :: rest ∨
      Begins opensExpression ts ∧ Accepts assignment ts (.symbol closing :: rest) := by
  obtain rfl | accepts := recognized
  · exact .inl rfl
  · exact value.opens.imp id fun begins => ⟨begins, accepts (.cons loose)⟩

/-- A list of parameters, or none, before the closing parenthesis. -/
theorem recognized_parameters {count : Nat}
    (list : Derives (.optional (.parameters count)) ts (.symbol .rightParen :: rest))
    (recognized : Recognized (.optional (.parameters count)) ts (.symbol .rightParen :: rest)) :
    ts = .symbol .rightParen :: rest ∨ ts.head? ≠ some (.symbol .rightParen) ∧
      ∀ before, before + count ≤ 255 →
        Accepts (parameters · before) ts (.symbol .rightParen :: rest) := by
  obtain rfl | accepts := recognized
  · exact .inl rfl
  · obtain rfl | begins := list.opens
    · exact .inl rfl
    · exact .inr ⟨begins.head_ne rfl, accepts rfl⟩

theorem Derives.recognized {p : Phrase} (d : Derives p ts rest) : Recognized p ts rest := by
  induction d with
  | program body ih =>
    rintro rfl
    exact ih.2 rfl
  | ofClass d ih => exact fun _ => ih
  | ofFunction d ih => exact fun _ => ih
  | ofVariable d ih =>
    obtain ⟨tail, rfl, accepts⟩ := ih
    exact fun _ => declaration_variable accepts
  | ofStatement d ih =>
    intro closed
    exact declaration_statement d.opens (ih.accepts closed)
  | classDecl clause methods ih ih' =>
    apply declaration_class _ (ih' _ rfl)
    exact ih.imp id id
  | superclass => rfl
  | funDecl f ih => exact declaration_function (ih _)
  | function parameters few block ih ih' =>
    intro role
    obtain ⟨tail, rfl, statements⟩ := ih'
    exact routine_accepts few (recognized_parameters parameters ih) statements role
  | lastParameter => exact fun closing before few => parameters_last few closing
  | parameters others ih =>
    intro closing before few
    exact parameters_more (by omega) (ih closing (before + 1) (by omega))
  | varDecl value ih =>
    refine ⟨_, rfl, varDeclaration_accepts ?_⟩
    obtain rfl | initialized := ih
    · exact .inl rfl
    · exact .inr (initialized (.cons (by decide)))
  | initializer value ih => exact fun loose => ⟨_, rfl, ih loose⟩
  | ofExpression s ih => exact .of_accepts (statement_expression s.opens ih)
  | ofFor s ih => exact ih
  | ofIf s ih => exact ih
  | ofPrint s ih => exact ih
  | ofReturn s ih => exact ih
  | ofWhile s ih => exact ih
  | ofBlock s ih =>
    obtain ⟨tail, rfl, declarations⟩ := ih
    exact .of_accepts (statement_block declarations)
  | exprStmt value ih => exact closing_accepts _ Stmt.expression (ih (.cons (by decide)))
  | forStmt first condition increment s ih ih₁ ih₂ ih₃ =>
    intro path dangling
    obtain ⟨out, left, suffix, accepts⟩ := ih₃ path dangling
    have tested := expressionUnless_accepts rfl (recognized_optional condition ih₁ (by decide))
    have stepped := expressionUnless_accepts rfl (recognized_optional increment ih₂ (by decide))
    exact ⟨out, left, suffix, statement_for ih tested stepped accepts⟩
  | firstVariable d ih =>
    obtain ⟨tail, rfl, accepts⟩ := ih
    exact forInitializer_variable accepts
  | firstExpression s ih => exact forInitializer_expression s.opens ih
  | firstNothing => exact forInitializer_nothing
  | ifStmt condition s alternative ih ih₁ ih₂ => exact settles_if (ih (.cons (by decide))) ih₁ ih₂
  | elseBranch s ih => exact ⟨_, rfl, ih⟩
  | printStmt value ih => exact .of_accepts (statement_print (ih (.cons (by decide))))
  | returnStmt value ih =>
    have returned := expressionUnless_accepts rfl (recognized_optional value ih (by decide))
    exact .of_accepts (statement_return returned)
  | whileStmt condition s ih ih' =>
    intro path dangling
    obtain ⟨out, left, suffix, accepts⟩ := ih' path dangling
    exact ⟨out, left, suffix, statement_while (ih (.cons (by decide))) accepts⟩
  | block body ih => exact ⟨_, rfl, block_accepts (ih.1 _ rfl)⟩
  | @assign ts _ _ target assigned ih ih' =>
    intro loose
    refine assignment_assign ?_ (ih' loose)
    -- the target is read as a call, and only the equals sign behind it makes it a target
    obtain rfl | received := ih
    · refine conditional_of_call (.cons (by decide)) rfl ?_
      intro n reported c here
      exact (call_variable (.cons (by decide)) here).mono fun _ _ ⟨there, named⟩ =>
        ⟨there, .inl named⟩
    · have begins : Begins opensPrimary ts := by
        obtain rfl | begins := target.opens
        · rfl
        · exact begins
      refine conditional_of_call (.cons (by decide)) begins ?_
      intro n reported c here
      exact (received _ rfl (.cons (by decide)) here).mono fun _ _ ⟨there, got⟩ =>
        ⟨there, .inr got⟩
  | unassigned e ih => exact fun loose => assignment_of_conditional loose (ih (loose.mono (by decide)))
  | receiver object ih =>
    rintro value rfl loose
    exact call_property loose ih
  | conditional condition branches ih ih' =>
    intro loose
    obtain rfl | chosen := ih'
    · exact conditional_of_or loose (ih (loose.mono (by decide)))
    · obtain ⟨middle, other, rfl, thenBranch, elseBranch⟩ := chosen loose
      exact conditional_branches (ih (.cons (by decide))) thenBranch elseBranch
  | branches thenBranch elseBranch ih ih' =>
    exact fun loose => ⟨_, _, rfl, ih (.cons (by decide)), ih' loose⟩
  | tier first others ih ih' =>
    intro loose
    exact binary_of_operands (recognized_operand (loose.of_operations others) ih) (ih' loose)
  | operation member right ih =>
    exact fun loose => ⟨_, _, rfl, member, recognized_operand loose ih⟩
  | power base exponent ih ih' =>
    intro loose
    obtain rfl | raised := ih'
    · exact power_of_unary loose (ih (loose.mono (by decide)))
    · obtain ⟨other, rfl, accepts⟩ := raised loose
      exact power_exponent (ih (.cons (by decide))) accepts
  | exponent e ih => exact fun loose => ⟨_, rfl, ih loose⟩
  | not right ih => exact fun loose => unary_sign (by simp) (ih loose)
  | negate right ih => exact fun loose => unary_sign (by simp) (ih loose)
  | unsigned e ih => exact fun loose => unary_of_call e.opens (Calls.accepts ih loose)
  | call callee suffixes ih ih' => exact calls_of_primary ih ih'
  | invocation arguments few ih =>
    apply continues_invocation few
    obtain rfl | accepts := ih
    · exact .inl rfl
    · obtain rfl | begins := arguments.opens
      · exact .inl rfl
      · exact .inr ⟨begins.head_ne rfl, accepts rfl⟩
  | property => exact continues_property
  | lastArgument e ih =>
    intro closing before few
    exact arguments_last few closing (ih (.of_head closing (by decide)))
  | arguments e more ih ih' =>
    intro closing before few
    exact arguments_more (by omega) (ih (.cons (by decide))) (ih' closing (before + 1) (by omega))
  | number => exact primary_number _
  | string => exact primary_string _
  | true_ => exact primary_constant (by simp)
  | false_ => exact primary_constant (by simp)
  | nil_ => exact primary_constant (by simp)
  | this_ => exact primary_this
  | name =>
    intro n reported c here
    exact (primary_name here).mono fun _ _ ⟨there, _⟩ => ⟨there, trivial⟩
  | grouping e ih => exact primary_grouping (ih (.cons (by decide)))
  | super_ => exact primary_super
  | absent => exact .inl rfl
  | present once ih => exact .inr ih
  | done => exact recognized_done _
  | more first others ih ih' => exact recognized_more first others ih ih'

/-- Whatever the token list, reading starts before an end marker. -/
theorem start_closed (tokens : List Token) : (Cursor.start tokens).Closed := by
  unfold Closed Cursor.start
  cases found : tokens.find? (·.kind = .endOfFile) with
  | none => rfl
  | some t => simpa using List.find?_some found

/-- A tree that is read is what the rule of assignments gives, and no token is left behind it. -/
theorem assignment_of_read {tokens : List Token} {e : Expr} {faults : List SyntaxError}
    (read : readExpression tokens = (some e, faults)) : ∃ after,
    assignment (budget tokens) (.start tokens) = .ok e after ∧ after.ahead = [] ∧ after.reported = faults := by
  unfold readExpression at read
  dsimp only at read
  cases given : assignment (budget tokens) (.start tokens) with
  | error failure last =>
    rw [bind_of_error given] at read
    cases failure <;> cases read
  | ok e' last =>
    have seen : atEnd last = .ok last.ahead.isEmpty last := rfl
    rw [bind_of_ok given, bind_of_ok seen] at read
    cases empty : last.ahead.isEmpty with
    | true =>
      rw [empty] at read
      cases read
      exact ⟨last, rfl, List.isEmpty_iff.mp empty, rfl⟩
    | false =>
      rw [empty] at read
      cases read

theorem start_ahead {body : List Token} {last : Token} (marker : last.kind = .endOfFile)
    (single : ∀ t ∈ body, t.kind ≠ .endOfFile) : (Cursor.start (body ++ [last])).ahead = body := by
  have stops : List.takeWhile (fun t : Token => decide (t.kind ≠ .endOfFile)) [last] = [] := by
    simp [marker]
  unfold Cursor.start
  rw [List.takeWhile_append_of_pos fun t member => by simpa using single t member, stops,
    List.append_nil]

theorem start_size (tokens : List Token) : (Cursor.start tokens).size ≤ tokens.length :=
  (List.takeWhile_prefix (l := tokens) _).length_le

/-- Reading a program has budget enough for every token list. -/
theorem readProgram_reads (tokens : List Token) :
    Reads (program (budget tokens)) (.start tokens) fun _ after =>
      after.ahead = [] ∧ Covers (.many .declaration) (.start tokens) after := by
  apply program_reads _ (start_closed tokens)
  have fewer := start_size tokens
  unfold budget
  omega

/-- No declaration is rejected; the fault is reported instead. -/
theorem declaration_gives (n : Nat) (c : Cursor) : Reaches (declaration n) c fun _ _ => True := by
  have recovers (rule : Rule Stmt) : Reaches (recovering rule) c fun _ _ => True := by
    cases ended : rule c with
    | ok s after => exact .of_ok (recovering_of_ok ended) trivial
    | error failure after =>
      cases failure with
      | exhausted => exact .of_error (recovering_of_exhausted ended) rfl
      | rejected e => exact .of_ok (recovering_of_rejected ended) trivial
  cases n with
  | zero => exact .exhausted
  | succ n => exact recovers _

theorem program_gives (n : Nat) (c : Cursor) : Reaches (program n) c fun _ _ => True := by
  induction n generalizing c with
  | zero => exact .exhausted
  | succ n ih =>
    apply Reaches.bind atEnd_reaches
    rintro ended c ⟨_, rfl⟩
    split
    · exact .pure trivial
    · apply Reaches.bind (declaration_gives n c)
      intro first c _
      apply Reaches.bind (ih c)
      exact fun rest c _ => .pure trivial

/-- Every token list is read to its end. -/
theorem readProgram_gives (tokens : List Token) : ∃ after,
    program (budget tokens) (.start tokens) = .ok (readProgram tokens).1 after ∧
      after.reported = (readProgram tokens).2 ∧ after.ahead = [] := by
  have reads := readProgram_reads tokens
  have gives := program_gives (budget tokens) (.start tokens)
  unfold readProgram
  cases ended : program (budget tokens) (.start tokens) with
  | ok statements after => exact ⟨after, rfl, rfl, (reads.ok_of ended).2.1⟩
  | error failure after => exact absurd (gives.error_of ended) (reads.error_of ended).2

theorem readProgram_sound {tokens : List Token} (clean : (readProgram tokens).2 = []) :
    Derives .program (Cursor.start tokens).kinds [] := by
  obtain ⟨after, read, reported, empty⟩ := readProgram_gives tokens
  obtain ⟨_, _, covers⟩ := (readProgram_reads tokens).ok_of read
  have same : after.faults = (Cursor.start tokens).faults := congrArg List.length (reported.trans clean)
  have derived := covers same
  rw [kinds_of_empty empty] at derived
  exact .program derived

theorem readProgram_complete {tokens : List Token}
    (derived : Derives .program (Cursor.start tokens).kinds []) : (readProgram tokens).2 = [] := by
  obtain ⟨after, read, reported, _⟩ := readProgram_gives tokens
  have start : At (Cursor.start tokens).kinds [] (.start tokens) := ⟨rfl, rfl, start_closed tokens⟩
  have accepts : Accepts program (Cursor.start tokens).kinds [.endOfFile] := derived.recognized rfl
  have reaches := @accepts (budget tokens) [] (.start tokens) start
  rw [← reported]
  exact (reaches.ok_of read).1.reported

/-- A token list is read as a program without a fault exactly if the kinds of its tokens are derived
from the grammar, no call having more than 255 arguments and no function or method more than 255
parameters. -/
theorem readProgram_clean_iff {body : List Token} {last : Token} (marker : last.kind = .endOfFile)
    (single : ∀ t ∈ body, t.kind ≠ .endOfFile) :
    (readProgram (body ++ [last])).2 = [] ↔
      Derives .program ((body ++ [last]).map (·.kind)) [] := by
  have kinds : (Cursor.start (body ++ [last])).kinds = (body ++ [last]).map (·.kind) := by
    unfold Cursor.kinds
    rw [start_ahead marker single, List.map_append, List.map_singleton, marker]
  rw [← kinds]
  exact ⟨readProgram_sound, readProgram_complete⟩

/-- A block that holds an empty class. -/
theorem nested_class_clean :
    (readProgram [⟨.symbol .leftBrace, "\x7b", 1⟩, ⟨.keyword .class_, "class", 1⟩,
      ⟨.identifier, "A", 1⟩, ⟨.symbol .leftBrace, "\x7b", 1⟩, ⟨.symbol .rightBrace, "\x7d", 1⟩,
      ⟨.symbol .rightBrace, "\x7d", 1⟩, ⟨.endOfFile, "", 1⟩]).2 = [] := by
  let body : List Token := [⟨.symbol .leftBrace, "\x7b", 1⟩, ⟨.keyword .class_, "class", 1⟩,
    ⟨.identifier, "A", 1⟩, ⟨.symbol .leftBrace, "\x7b", 1⟩, ⟨.symbol .rightBrace, "\x7d", 1⟩,
    ⟨.symbol .rightBrace, "\x7d", 1⟩]
  have single : ∀ t ∈ body, t.kind ≠ .endOfFile := by simp [body]
  have marker : (⟨.endOfFile, "", 1⟩ : Token).kind = .endOfFile := rfl
  apply (readProgram_clean_iff marker single).mpr
  have nested : Derives .declaration [.keyword .class_, .identifier, .symbol .leftBrace,
      .symbol .rightBrace, .symbol .rightBrace, .endOfFile] [.symbol .rightBrace, .endOfFile] :=
    .ofClass (.classDecl .absent .done)
  exact .program (.more (.ofStatement (.ofBlock (.block (.more nested .done)))) .done)

end LoxLang.Grammar
