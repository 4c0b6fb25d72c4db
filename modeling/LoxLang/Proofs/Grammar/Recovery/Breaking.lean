import LoxLang.Proofs.Grammar.Extension.Statement
import LoxLang.Proofs.Grammar.Recovery.Pervading

/-! Where a statement breaks off. A `var`, `print`, `return` or expression statement that is not ended by
a semicolon is rejected at the token behind it, unless that token goes on with its expression; so is
every statement that it is part of, and nothing has been reported before. -/
namespace LoxLang.Grammar
open Cursor

/-- The token neither begins an expression nor goes on with one. -/
structure Foreign (kind : Token.Kind) : Prop where
  opens : opensExpression kind = false
  grip : grip kind = 0

/-- The tokens are a `var`, `print`, `return` or expression statement without its semicolon, or a
statement or declaration up to there, and `found` does not go on with what is there. -/
inductive Lacks (found : Token.Kind) : Phrase → List Token.Kind → Prop
  | ofVariable {ts} (d : Lacks found .varDecl ts) : Lacks found .declaration ts
  | ofStatement {ts} (s : Lacks found .statement ts) : Lacks found .declaration ts
  | unset (other : found ≠ .symbol .equal) : Lacks found .varDecl [.keyword .var_, .identifier]
  | set {ts} (value : Derives .assignment ts []) (loose : grip found < 1) :
    Lacks found .varDecl (.keyword .var_ :: .identifier :: .symbol .equal :: ts)
  | exprStmt {ts} (value : Derives .assignment ts []) (loose : grip found < 1) : Lacks found .exprStmt ts
  | ofExpression {ts} (s : Lacks found .exprStmt ts) : Lacks found .statement ts
  | print {ts} (value : Derives .assignment ts []) (loose : grip found < 1) :
    Lacks found .statement (.keyword .print_ :: ts)
  | returnValue {ts} (value : Derives .assignment ts []) (loose : grip found < 1) :
    Lacks found .statement (.keyword .return_ :: ts)
  | returnNothing (foreign : Foreign found) : Lacks found .statement [.keyword .return_]
  | firstVariable {ts} (d : Lacks found .varDecl ts) :
    Lacks found .statement (.keyword .for_ :: .symbol .leftParen :: ts)
  | firstExpression {ts} (s : Lacks found .exprStmt ts) :
    Lacks found .statement (.keyword .for_ :: .symbol .leftParen :: ts)
  | round {ts test step body} (first : Derives .forFirst ts test)
    (condition : Derives (.optional .assignment) test (.symbol .semicolon :: step))
    (increment : Derives (.optional .assignment) step (.symbol .rightParen :: body))
    (s : Lacks found .statement body) :
    Lacks found .statement (.keyword .for_ :: .symbol .leftParen :: ts)
  | loop {ts body} (condition : Derives .assignment ts (.symbol .rightParen :: body))
    (s : Lacks found .statement body) :
    Lacks found .statement (.keyword .while_ :: .symbol .leftParen :: ts)
  | thenBranch {ts body} (condition : Derives .assignment ts (.symbol .rightParen :: body))
    (s : Lacks found .statement body) :
    Lacks found .statement (.keyword .if_ :: .symbol .leftParen :: ts)
  | elseBranch {ts body other} (condition : Derives .assignment ts (.symbol .rightParen :: body))
    (s : Derives .statement body (.keyword .else_ :: other)) (alternative : Lacks found .statement other) :
    Lacks found .statement (.keyword .if_ :: .symbol .leftParen :: ts)

variable {α β : Type} {ts rest : List Token.Kind}

section Halting

variable {rule : Rule α} {next : α → Rule β} {c : Cursor} {reported : List SyntaxError}

/-- The rule goes from this cursor to `rest`, reports nothing and rejects the token there, if its
budget is enough. -/
def Halts (rule : Rule α) (c : Cursor) (reported : List SyntaxError) (rest : List Token.Kind) : Prop :=
  Ends rule c (fun _ _ => False) fun failure last => failure = .exhausted ∨
    (∃ cause, failure = .rejected ⟨cause, last.next⟩) ∧ At rest reported last

namespace Halts

theorem exhausted : Halts (Grammar.exhausted : Rule α) c reported rest := .inl rfl

theorem reject (cause : SyntaxError.Cause) (here : At rest reported c) :
    Halts (Grammar.reject cause c.next : Rule α) c reported rest := .inr ⟨⟨cause, rfl⟩, here⟩

/-- What is rejected in its first part is rejected. -/
theorem bind (first : Halts rule c reported rest) : Halts (rule >>= next) c reported rest :=
  Ends.bind first fun _ _ _ none => none.elim

theorem of_eq {rule' : Rule α} {c' : Cursor} (halts : Halts rule' c' reported rest)
    (same : rule c = rule' c') : Halts rule c reported rest := Ends.of_eq halts same

theorem map {f : α → β} (first : Halts rule c reported rest) : Halts (f <$> rule) c reported rest :=
  first.bind

theorem after {ok : α → Cursor → Prop} (first : Reaches rule c ok)
    (others : ∀ a middle, ok a middle → Halts (next a) middle reported rest) :
    Halts (rule >>= next) c reported rest :=
  Ends.bind (Ends.mono first (fun _ _ => id) fun _ _ => .inl)
    fun a middle _ holds => others a middle holds

theorem of_next {others : Token → Rule α} (halts : Halts (others c.next) c reported rest) :
    Halts (Grammar.next >>= others) c reported rest := by
  apply Halts.after next_reaches
  rintro _ _ ⟨rfl, rfl⟩
  exact halts

end Halts

theorem expectSymbol_halts {s : Symbol} (place : SyntaxError.Place) (here : At rest reported c)
    (other : rest.head? ≠ some (.symbol s)) : Halts (expectSymbol s place) c reported rest := by
  have wanted : Halts (expect (.symbol s) (.missingSymbol s place)) c reported rest := by
    apply Halts.after (accept_other_reaches here other)
    rintro _ _ ⟨rfl, rfl⟩
    apply Halts.of_next
    exact .reject _ here
  exact wanted.bind

end Halting

/-- The rule goes from these tokens to the others without a report and rejects there. -/
def Breaks (rule : Nat → Rule α) (ts rest : List Token.Kind) : Prop :=
  ∀ ⦃n reported c⦄, At ts reported c → Halts (rule n) c reported rest

theorem Breaks.of_succ {rule : Nat → Rule α} (zero : rule 0 = exhausted)
    (succ : ∀ {n reported c}, At ts reported c → Halts (rule (n + 1)) c reported rest) :
    Breaks rule ts rest := by
  intro n reported c here
  cases n with
  | zero =>
    rw [zero]
    exact .exhausted
  | succ n => exact succ here

/-- A rule behind which a symbol is missing. -/
theorem closing_breaks {rule : Nat → Rule α} {s : Symbol} (place : SyntaxError.Place) (build : α → β)
    (accepts : Accepts rule ts rest) (other : rest.head? ≠ some (.symbol s)) :
    Breaks (fun n => do let a ← rule n; expectSymbol s place; return build a) ts rest := by
  intro n reported c here
  apply Halts.after (accepts here)
  intro a middle ⟨there, _⟩
  exact (expectSymbol_halts place there other).bind

section Foreign

variable {kind : Token.Kind} {t tighter : Tier}

theorem primary_foreign (foreign : Foreign kind) (head : rest.head? = some kind) :
    Breaks primary rest rest := by
  apply Breaks.of_succ rfl
  intro n reported c here
  have found : c.next.kind = kind := Option.some.inj (here.head.symm.trans head)
  obtain ⟨closed, low⟩ := foreign
  rw [← found] at closed low
  apply Halts.of_next
  split
  iterate 20
    next same => simp [same, opensExpression, opensPrimary, grip, Tier.ofKind?, Tier.rank] at closed low
  exact .reject _ here

theorem unary_foreign (foreign : Foreign kind) (head : rest.head? = some kind) :
    Breaks unary rest rest := by
  have called : Breaks call rest rest := by
    apply Breaks.of_succ rfl
    intro n reported c here
    exact (primary_foreign foreign head here).bind
  apply Breaks.of_succ rfl
  intro n reported c here
  have found : c.next.kind = kind := Option.some.inj (here.head.symm.trans head)
  have closed := foreign.opens
  rw [← found] at closed
  apply Halts.of_next
  split
  · next sign => simp [sign, opensExpression] at closed
  · next sign => simp [sign, opensExpression] at closed
  · exact called here

theorem binary_breaks (first : Breaks (operand · t) ts rest) : Breaks (binary · t) ts rest := by
  apply Breaks.of_succ rfl
  intro n reported c here
  exact (first here).bind

theorem operand_breaks (below : t.tighter? = some tighter) (breaks : Breaks (binary · tighter) ts rest) :
    Breaks (operand · t) ts rest := by
  apply Breaks.of_succ rfl
  intro n reported c here
  simp only [operand, below]
  exact breaks here

theorem assignment_foreign (foreign : Foreign kind) (head : rest.head? = some kind) :
    Breaks assignment rest rest := by
  have raised : Breaks (operand · .factor) rest rest := by
    apply Breaks.of_succ rfl
    intro n reported c here
    have powers : Breaks power rest rest := by
      apply Breaks.of_succ rfl
      intro n reported c here
      exact (unary_foreign foreign head here).bind
    exact powers here
  have at_term := binary_breaks (operand_breaks (t := .term) rfl (binary_breaks raised))
  have at_equality := binary_breaks (operand_breaks (t := .equality) rfl
    (binary_breaks (operand_breaks (t := .comparison) rfl at_term)))
  have at_or := binary_breaks (operand_breaks (t := .or_) rfl
    (binary_breaks (operand_breaks (t := .and_) rfl at_equality)))
  have chosen : Breaks conditional rest rest := by
    apply Breaks.of_succ rfl
    intro n reported c here
    exact (at_or here).bind
  apply Breaks.of_succ rfl
  intro n reported c here
  exact (chosen here).bind

end Foreign

section Lacking

variable {test step body other : List Token.Kind} {kind found : Token.Kind} {p : Phrase}

theorem varDeclaration_breaks
    (value : Accepts (fun n => optionalAfter (.symbol .equal) (assignment n)) ts rest)
    (missing : rest.head? ≠ some (.symbol .semicolon)) :
    Breaks varDeclaration (.identifier :: ts) rest := by
  intro n reported c here
  apply Halts.after (expectName_reaches _ here)
  exact fun name middle there => closing_breaks _ (Stmt.var name) value missing there

theorem returnNothing_breaks (t : Token) (foreign : Foreign kind) (head : rest.head? = some kind)
    (missing : kind ≠ .symbol .semicolon) : Breaks (returnStatement t) rest rest := by
  intro n reported c here
  have value : Halts (expressionUnless .semicolon n) c reported rest := by
    apply Halts.after sees_reaches
    rintro _ _ ⟨rfl, rfl⟩
    rw [if_neg fun seen => missing (Option.some.inj (head.symm.trans ((here.sees _).mp seen)))]
    exact (assignment_foreign foreign head here).bind
  exact value.bind

theorem whileStatement_breaks (tested : Accepts assignment ts (.symbol .rightParen :: body))
    (breaks : Breaks statement body rest) : Breaks whileStatement (.symbol .leftParen :: ts) rest := by
  apply Breaks.of_succ rfl
  intro n reported c here
  apply Halts.after (condition_accepts _ _ tested here)
  exact fun e middle ⟨there, _⟩ => (breaks there).bind

theorem ifStatement_breaks (tested : Accepts assignment ts (.symbol .rightParen :: body))
    (breaks : Breaks statement body rest) : Breaks ifStatement (.symbol .leftParen :: ts) rest := by
  apply Breaks.of_succ rfl
  intro n reported c here
  apply Halts.after (condition_accepts _ _ tested here)
  exact fun e middle ⟨there, _⟩ => (breaks there).bind

theorem ifStatement_breaks_else (tested : Accepts assignment ts (.symbol .rightParen :: body))
    (thenBranch : Accepts statement body (.keyword .else_ :: other))
    (breaks : Breaks statement other rest) : Breaks ifStatement (.symbol .leftParen :: ts) rest := by
  apply Breaks.of_succ rfl
  intro n reported c here
  apply Halts.after (condition_accepts _ _ tested here)
  intro e c ⟨there, _⟩
  apply Halts.after (thenBranch there)
  intro s c ⟨there, _⟩
  have elseBranch : Halts (optionalAfter (.keyword .else_) (statement n)) c reported rest := by
    apply Halts.after (accept_reaches there nofun)
    rintro _ c ⟨_, rfl, _, there⟩
    exact (breaks there).map
  exact elseBranch.bind

theorem forStatement_breaks_first (breaks : Breaks forInitializer ts rest) :
    Breaks forStatement (.symbol .leftParen :: ts) rest := by
  apply Breaks.of_succ rfl
  intro n reported c here
  apply Halts.after (expectSymbol_reaches _ here)
  exact fun _ c there => (breaks there).bind

theorem forStatement_breaks (first : Accepts forInitializer ts test)
    (condition : Accepts (expressionUnless .semicolon) test (.symbol .semicolon :: step))
    (increment : Accepts (expressionUnless .rightParen) step (.symbol .rightParen :: body))
    (breaks : Breaks statement body rest) : Breaks forStatement (.symbol .leftParen :: ts) rest := by
  apply Breaks.of_succ rfl
  intro n reported c here
  apply Halts.after (expectSymbol_reaches _ here)
  intro _ c there
  apply Halts.after (first there)
  intro initializer c ⟨there, _⟩
  apply Halts.after (condition there)
  intro e c ⟨there, _⟩
  apply Halts.after (expectSymbol_reaches _ there)
  intro _ c there
  apply Halts.after (increment there)
  intro e c ⟨there, _⟩
  apply Halts.after (expectSymbol_reaches _ there)
  exact fun _ c there => (breaks there).bind

theorem forInitializer_breaks_variable (breaks : Breaks varDeclaration ts rest) :
    Breaks forInitializer (.keyword .var_ :: ts) rest := by
  intro n reported c here
  apply Halts.of_next
  rw [here.next]
  apply Halts.after (advance_reaches here nofun)
  exact fun _ middle there => (breaks there).map

theorem forInitializer_breaks_expression (begins : Begins opensExpression ts)
    (breaks : Breaks expressionStatement ts rest) : Breaks forInitializer ts rest := by
  intro n reported c here
  unfold Begins at begins
  rw [here.head] at begins
  apply Halts.of_next
  split
  · next found => simp [found, opensExpression, opensPrimary] at begins
  · next found => simp [found, opensExpression, opensPrimary] at begins
  · exact (breaks here).map

theorem Chosen.breaks {inner : Token → Nat → Rule Stmt} (chosen : Chosen kind inner)
    (open_ : kind ≠ .endOfFile) (breaks : ∀ t, Breaks (inner t) ts rest) :
    Breaks statement (kind :: ts) rest := by
  apply Breaks.of_succ rfl
  intro n reported c here
  obtain ⟨_, there⟩ := here.step open_
  exact (breaks _ there).of_eq (chosen n c here.next)

theorem statement_breaks_expression (begins : Begins opensExpression ts)
    (breaks : Breaks expressionStatement ts rest) : Breaks statement ts rest := by
  apply Breaks.of_succ rfl
  intro n reported c here
  exact (breaks here).of_eq (statement_of_expression (here.begins begins))

/-- A statement breaks off where its last part does. -/
theorem breaks_pervade (rest : List Token.Kind) :
    Pervades (· = rest) fun ts => Breaks statement (ts ++ rest) rest where
  loop tested breaks := chosen_while.breaks nofun fun _ => whileStatement_breaks (tested rest rfl) breaks
  rounds first condition increment breaks := chosen_for.breaks nofun fun _ =>
    forStatement_breaks (first rest rfl) (condition rest rfl) (increment rest rfl) breaks
  thenBranch tested breaks :=
    chosen_if.breaks nofun fun _ => ifStatement_breaks (tested rest rfl) breaks
  elseBranch tested thenBranch breaks := chosen_if.breaks nofun fun _ =>
    ifStatement_breaks_else (tested rest rfl) (thenBranch rest rfl) breaks

theorem Begins.append {opens : Token.Kind → Bool} (begins : Begins opens ts) (more : List Token.Kind) :
    Begins opens (ts ++ more) := by
  cases ts with
  | nil => exact absurd begins nofun
  | cons kind rest => exact begins

theorem Lacks.opens (lacks : Lacks found p ts) : Begins p.opens ts := by
  induction lacks with
  | ofStatement s ih => exact ih.mono opensDeclaration_of_statement
  | exprStmt value => exact value.opens
  | ofExpression s ih => exact ih.mono opensStatement_of_expression
  | _ => first | assumption | rfl

variable (rest) in
/-- How the rule for a phrase breaks off before these tokens. -/
def BreaksOff : Phrase → List Token.Kind → Prop
  | .varDecl, ts => ∃ more, ts = .keyword .var_ :: more ∧ Breaks varDeclaration (more ++ rest) rest
  | .exprStmt, ts => Breaks expressionStatement (ts ++ rest) rest
  | .statement, ts => Breaks statement (ts ++ rest) rest
  | .declaration, ts =>
    (∃ more, ts = .keyword .var_ :: more ∧ Breaks varDeclaration (more ++ rest) rest) ∨
      Begins opensStatement ts ∧ Breaks statement (ts ++ rest) rest
  | _, _ => True

theorem Lacks.breaksOff (missing : found ≠ .symbol .semicolon) (head : rest.head? = some found)
    (lacks : Lacks found p ts) : BreaksOff rest p ts := by
  have other : rest.head? ≠ some (.symbol .semicolon) :=
    fun same => missing (Option.some.inj (head.symm.trans same))
  have read {ts : List Token.Kind} (value : Derives .assignment ts []) (loose : grip found < 1) :
      Accepts assignment (ts ++ rest) rest := (value.append rest).recognized (.of_head head loose)
  have pervades := breaks_pervade rest
  induction lacks with
  | ofVariable d ih => exact .inl ih
  | ofStatement s ih => exact .inr ⟨s.opens, ih⟩
  | unset different =>
    refine ⟨_, rfl, varDeclaration_breaks (optionalAfter_skips ?_) other⟩
    exact fun same => different (Option.some.inj (head.symm.trans same))
  | set value loose =>
    exact ⟨_, rfl, varDeclaration_breaks (optionalAfter_accepts nofun (read value loose)) other⟩
  | exprStmt value loose => exact closing_breaks _ Stmt.expression (read value loose) other
  | ofExpression s ih => exact statement_breaks_expression (s.opens.append rest) ih
  | print value loose =>
    exact chosen_print.breaks nofun fun _ => closing_breaks _ Stmt.print (read value loose) other
  | returnValue value loose =>
    have returned : Accepts (expressionUnless .semicolon) _ rest :=
      expressionUnless_present rfl (value.opens.append rest) (read value loose)
    exact chosen_return.breaks nofun fun t => closing_breaks _ (Stmt.return_ t) returned other
  | returnNothing foreign =>
    exact chosen_return.breaks nofun fun t => returnNothing_breaks t foreign head missing
  | firstVariable d ih =>
    obtain ⟨more, rfl, breaks⟩ := ih
    exact chosen_for.breaks nofun fun _ =>
      forStatement_breaks_first (forInitializer_breaks_variable breaks)
  | firstExpression s ih =>
    exact chosen_for.breaks nofun fun _ => forStatement_breaks_first <|
      forInitializer_breaks_expression (s.opens.append rest) ih
  | round first condition increment s ih =>
    exact pervades.rounds (fun tail _ => (first.append tail).recognized)
      (condition.maybeTested rfl (by decide)) (increment.maybeTested rfl (by decide)) ih
  | loop condition s ih => exact pervades.loop (condition.tested (by decide)) ih
  | thenBranch condition s ih => exact pervades.thenBranch (condition.tested (by decide)) ih
  | elseBranch condition s alternative ih => exact pervades.otherwise condition s ih

end Lacking

section Recovering

variable {c : Cursor} {found : Token.Kind}

/-- From this cursor a declaration goes on to `rest`, reports the token there and nothing else, and
recovers. -/
def Recovered (c : Cursor) (reported : List SyntaxError) (rest : List Token.Kind) (s : Option Stmt)
    (after : Cursor) : Prop :=
  s = none ∧ ∃ broken cause, At rest reported broken ∧ Onward c broken ∧
    after = (broken.noted ⟨cause, broken.next⟩).recover

theorem recovering_halts {rule : Rule Stmt} {reported : List SyntaxError}
    (halts : Halts rule c reported rest)
    (onward : ∀ failure last, rule c = .error failure last → Onward c last) :
    Reaches (recovering rule) c (Recovered c reported rest) := by
  cases ended : rule c with
  | ok s after => exact (halts.ok_of ended).elim
  | error failure broken =>
    obtain rfl | ⟨⟨cause, rfl⟩, there⟩ := halts.error_of ended
    · exact .of_error (recovering_of_exhausted ended) rfl
    · exact .of_ok (recovering_of_rejected ended) ⟨rfl, broken, cause, there, onward _ _ ended, rfl⟩

theorem varDeclaration_onward {n : Nat} {failure : Failure} {last : Cursor}
    (ended : varDeclaration n c = .error failure last) : Onward c last := by
  have takes : Takes [] c.stop False (varDeclaration n) (varDeclaration n) :=
    varDeclaration_takes (Nat.le_refl n)
  exact (takes c).error_of ended

theorem statement_onward {n : Nat} {failure : Failure} {last : Cursor}
    (ended : statement n c = .error failure last) : Onward c last :=
  ((statementsExtend [] c.stop (Nat.le_refl n)).statement c).error_of ended

/-- A declaration that breaks off is left out. -/
theorem Lacks.recovered {n : Nat} {reported : List SyntaxError} (missing : found ≠ .symbol .semicolon)
    (head : rest.head? = some found) (lacks : Lacks found .declaration ts)
    (here : At (ts ++ rest) reported c) :
    Reaches (declaration n) c (Recovered c reported rest) := by
  cases n with
  | zero => exact .exhausted
  | succ n =>
    unfold Reaches Ends
    obtain ⟨more, rfl, breaks⟩ | ⟨begins, breaks⟩ := lacks.breaksOff missing head
    · obtain ⟨stepped, there⟩ := here.step nofun
      rw [declaration_chosen, here.next]
      apply (recovering_halts (c := c.stepped) (breaks there) fun _ _ => varDeclaration_onward).mono
      rintro s after ⟨none, broken, cause, there, onward, same⟩
      exact ⟨none, broken, cause, there, stepped.onward.trans onward, same⟩
    · rw [declaration_of_statement (here.begins (begins.append rest))]
      exact recovering_halts (breaks here) fun _ _ => statement_onward

end Recovering

end LoxLang.Grammar
