import LoxLang.Proofs.Grammar.Building.Expression
import LoxLang.Proofs.Grammar.Recognition

/-! The rules of statements build trees out of the tokens ahead. A rejected declaration leaves out
what was built for it, and the identities that were given out for it are not given out again. -/
namespace LoxLang.Grammar
open Cursor

variable {α β : Type} (tokens : List Token)

section Simple

variable {tokens} {n : Nat} {c : Cursor} (among : Among tokens c)
include among

theorem expressionUnless_advances (closing : Symbol) : Advances (expressionUnless closing n) c
    fun e after => Built tokens c.nextId (.clause e) after.nextId := by
  apply Advances.bind (.of_reads (sees_reads _ c))
  rintro _ c _ ⟨rfl, rfl⟩
  split
  · exact .pure .noClause
  · apply Advances.bind ((expressionsBuild tokens n).assignment among)
    exact fun e after _ built => .pure (.someClause built)

theorem expressionStatement_advances : Advances (expressionStatement n) c
    fun s after => Built tokens c.nextId (.stmt s) after.nextId ∧ s.declared? = none := by
  apply Advances.bind ((expressionsBuild tokens n).assignment among)
  intro e middle _ built
  apply Advances.bind (.of_reads (expectSymbol_reads _ _ middle))
  intro _ after onward _
  exact .pure ⟨.expression (built.raised onward.nextId), rfl⟩

theorem printStatement_advances : Advances (printStatement n) c
    fun s after => Built tokens c.nextId (.stmt s) after.nextId ∧ s.declared? = none := by
  apply Advances.bind ((expressionsBuild tokens n).assignment among)
  intro e middle _ built
  apply Advances.bind (.of_reads (expectSymbol_reads _ _ middle))
  intro _ after onward _
  exact .pure ⟨.print (built.raised onward.nextId), rfl⟩

theorem returnStatement_advances {keyword : Token} (member : keyword ∈ tokens)
    (kind : keyword.kind = .keyword .return_) :
    Advances (returnStatement keyword n) c
      fun s after => Built tokens c.nextId (.stmt s) after.nextId ∧ s.declared? = none := by
  apply Advances.bind (expressionUnless_advances among .semicolon)
  intro value middle _ built
  apply Advances.bind (.of_reads (expectSymbol_reads _ _ middle))
  intro _ after onward _
  exact .pure ⟨.return_ member kind (built.raised onward.nextId), rfl⟩

theorem varDeclaration_advances : Advances (varDeclaration n) c
    fun s after => Built tokens c.nextId (.stmt s) after.nextId := by
  apply Advances.bind (.of_reads (expectName_reads _ c))
  intro name start onward ⟨kind, stepped⟩
  have there := among.onward onward
  have named := among.name stepped kind
  have initialized : Advances (optionalAfter (.symbol .equal) (assignment n)) start
      fun e after => Built tokens c.nextId (.clause e) after.nextId := by
    have valued {t : Token} {equals : Cursor} (further : Onward start equals)
        (symbol : Stepped start t equals) : Advances (assignment n) equals
        fun e after => Built tokens c.nextId (.expr e) after.nextId := by
      rw [← stepped.nextId, ← symbol.nextId]
      exact (expressionsBuild tokens n).assignment (there.onward further)
    apply optionalAfter_advances valued
    · rw [← stepped.nextId]
      exact .noClause
    · exact fun _ _ built => .someClause built
  apply Advances.bind initialized
  intro initializer middle _ built
  apply Advances.bind (.of_reads (expectSymbol_reads _ _ middle))
  intro _ after further _
  exact .pure (.var named (built.raised further.nextId))

theorem condition_advances (opening closing : SyntaxError.Place) :
    Advances (condition opening closing n) c
      fun e after => Built tokens c.nextId (.expr e) after.nextId := by
  apply Advances.bind (.of_reads (expectSymbol_reads _ _ c))
  intro _ start onward _
  apply Advances.bind ((expressionsBuild tokens n).assignment (among.onward onward))
  intro e middle _ built
  apply Advances.bind (.of_reads (expectSymbol_reads _ _ middle))
  intro _ after further _
  exact .pure (built.widen onward.nextId further.nextId)

theorem forInitializer_advances : Advances (forInitializer n) c
    fun s after => Built tokens c.nextId (.branch s) after.nextId := by
  apply Advances.of_next
  split
  · next found =>
    apply step_advances among.closed (found ▸ nofun)
    intro after onward _
    exact .pure (Built.noBranch.lowered onward.nextId)
  · next found =>
    apply step_advances among.closed (found ▸ nofun)
    intro middle onward _
    apply (varDeclaration_advances (among.onward onward)).map
    exact fun _ _ _ built => .someBranch (built.lowered onward.nextId)
  · apply (expressionStatement_advances among).map
    exact fun _ _ _ built => .someBranch built.1

omit among in
theorem parameters_advances (n before : Nat) {c : Cursor} (among : Among tokens c) :
    Advances (parameters n before) c fun names after =>
      after.nextId = c.nextId ∧ ∀ name ∈ names, IsName tokens name := by
  induction n generalizing c before with
  | zero => exact .exhausted
  | succ n ih =>
    apply Advances.bind (.of_reads (boundArity_reads before _ c))
    intro _ start onward ⟨_, _, same, _⟩
    have there := among.onward onward
    apply Advances.bind (.of_reads (expectName_reads _ start))
    intro first middle further ⟨kind, stepped⟩
    have named := there.name stepped kind
    have unchanged := stepped.nextId.trans same
    apply Advances.bind (.of_reads (accept_reads _ middle))
    intro taken comma beyond accepted
    cases accepted with
    | left => exact .pure ⟨unchanged, by simpa using named⟩
    | @taken sign comma matched stepped =>
      have last := stepped.nextId
      apply Advances.bind (ih (before + 1) ((there.onward further).onward beyond))
      intro rest after _ ⟨same, others⟩
      refine .pure ⟨(same.trans last).trans unchanged, ?_⟩
      intro name member
      obtain rfl | member := List.mem_cons.mp member
      · exact named
      · exact others name member

end Simple

theorem recovering_advances {rule : Rule Stmt} {c : Cursor} {ok : Stmt → Cursor → Prop}
    (advances : Advances rule c ok) :
    Advances (recovering rule) c fun s after => ∀ d ∈ s, ok d after := by
  cases ended : rule c with
  | ok s after =>
    obtain ⟨onward, built⟩ := Ends.ok_of advances ended
    refine .of_ok (recovering_of_ok ended) ⟨onward, ?_⟩
    rintro _ ⟨⟩
    exact built
  | error failure after =>
    have onward := Ends.error_of advances ended
    cases failure with
    | exhausted => exact .of_error (recovering_of_exhausted ended) onward
    | rejected e =>
      refine .of_ok (recovering_of_rejected ended) ⟨onward.trans (noted_onward after e).1, ?_⟩
      rintro _ ⟨⟩

/-- The rules of statements build trees with this budget. -/
structure StatementsBuild (n : Nat) : Prop where
  declaration : ∀ {c}, Among tokens c →
    Advances (declaration n) c fun s after => ∀ d ∈ s, Built tokens c.nextId (.stmt d) after.nextId
  classDeclaration : ∀ {c}, Among tokens c →
    Advances (classDeclaration n) c fun s after => Built tokens c.nextId (.stmt s) after.nextId
  methods : ∀ {c}, Among tokens c →
    Advances (methods n) c fun ds after => Built tokens c.nextId (.routines ds) after.nextId
  routine : ∀ {c role}, Among tokens c →
    Advances (routine n role) c fun d after => Built tokens c.nextId (.routine d) after.nextId
  block : ∀ {c}, Among tokens c →
    Advances (block n) c fun body after => Built tokens c.nextId (.stmts body) after.nextId
  blockDeclarations : ∀ {c}, Among tokens c → Advances (blockDeclarations n) c
    fun body after => Built tokens c.nextId (.stmts body) after.nextId
  statement : ∀ {c}, Among tokens c → Advances (statement n) c
    fun s after => Built tokens c.nextId (.stmt s) after.nextId ∧ s.declared? = none
  forStatement : ∀ {c}, Among tokens c → Advances (forStatement n) c
    fun s after => Built tokens c.nextId (.stmt s) after.nextId ∧ s.declared? = none
  ifStatement : ∀ {c}, Among tokens c → Advances (ifStatement n) c
    fun s after => Built tokens c.nextId (.stmt s) after.nextId ∧ s.declared? = none
  whileStatement : ∀ {c}, Among tokens c → Advances (whileStatement n) c
    fun s after => Built tokens c.nextId (.stmt s) after.nextId ∧ s.declared? = none

/-- Declarations behind one that may have been rejected. -/
theorem Built.declarations {tokens : List Token} {first : Option Stmt} {rest : List Stmt}
    {low middle high : Nat} (ordered : low ≤ middle)
    (built : ∀ d ∈ first, Built tokens low (.stmt d) middle)
    (others : Built tokens middle (.stmts rest) high) :
    Built tokens low (.stmts (first.toList ++ rest)) high := by
  cases first with
  | none => exact others.lowered ordered
  | some d => exact .moreStmts (built d rfl) others

namespace StatementsBuild

variable {tokens} {n : Nat} (all : StatementsBuild tokens n) {c : Cursor} (among : Among tokens c)
include all among

theorem declaration_succ : Advances (Grammar.declaration (n + 1)) c
    fun s after => ∀ d ∈ s, Built tokens c.nextId (.stmt d) after.nextId := by
  apply recovering_advances
  apply Advances.of_next
  split
  · next found =>
    apply step_advances among.closed (found ▸ nofun)
    intro middle onward stepped
    rw [← stepped.nextId]
    exact all.classDeclaration (among.onward onward)
  · next found =>
    apply step_advances among.closed (found ▸ nofun)
    intro middle onward stepped
    rw [← stepped.nextId]
    exact (all.routine (among.onward onward)).map fun _ _ _ built => .function built
  · next found =>
    apply step_advances among.closed (found ▸ nofun)
    intro middle onward stepped
    rw [← stepped.nextId]
    exact varDeclaration_advances (among.onward onward)
  · exact (all.statement among).mono fun _ _ _ built => built.1

theorem classDeclaration_succ : Advances (Grammar.classDeclaration (n + 1)) c
    fun s after => Built tokens c.nextId (.stmt s) after.nextId := by
  apply Advances.bind (.of_reads (expectName_reads _ c))
  intro name start onward ⟨kind, stepped⟩
  have named := among.name stepped kind
  have there := among.onward onward
  have inherits : Advances
      (optionalAfter (.symbol .less) (reference =<< expectName .ofSuperclass)) start
      fun clause after => ∀ r ∈ clause,
        IsName tokens r.name ∧ c.nextId ≤ r.id ∧ r.id < after.nextId := by
    have referred {t : Token} {less : Cursor} (further : Onward start less)
        (symbol : Stepped start t less) : Advances (reference =<< expectName .ofSuperclass) less
        fun r after => IsName tokens r.name ∧ c.nextId ≤ r.id ∧ r.id < after.nextId := by
      have within := there.onward further
      apply Advances.bind (.of_reads (expectName_reads _ less))
      intro parent last _ ⟨kind, final⟩
      apply (Advances.of_reads (reference_reads parent last)).mono
      rintro _ _ _ ⟨rfl, rfl⟩
      have same := (final.nextId.trans symbol.nextId).trans stepped.nextId
      exact ⟨within.name final kind, Nat.le_of_eq same.symm, Nat.lt_succ_self _⟩
    apply optionalAfter_advances referred nofun
    rintro r after holds _ ⟨⟩
    exact holds
  apply Advances.bind inherits
  intro clause brace further parent
  apply Advances.bind (.of_reads (expectSymbol_reads _ _ brace))
  intro _ body opened _
  apply Advances.bind (all.methods ((there.onward further).onward opened))
  intro methods closing _ built
  apply Advances.bind (.of_reads (expectSymbol_reads _ _ closing))
  intro _ after final _
  have ordered := Nat.le_trans (onward.trans further).nextId opened.nextId
  refine .pure (.class_ named ordered (fun r member => ?_) (built.raised final.nextId))
  obtain ⟨named, lower, upper⟩ := parent r member
  exact ⟨named, lower, Nat.lt_of_lt_of_le upper opened.nextId⟩

theorem methods_succ : Advances (Grammar.methods (n + 1)) c
    fun ds after => Built tokens c.nextId (.routines ds) after.nextId := by
  apply Advances.bind (.of_reads (atEnd_reads c))
  rintro ended c _ ⟨_, rfl⟩
  apply Advances.bind (.of_reads (sees_reads _ c))
  rintro closes c _ ⟨_, rfl⟩
  split
  · exact .pure .noRoutines
  · apply Advances.bind (all.routine among)
    intro first middle onward built
    apply Advances.bind (all.methods (among.onward onward))
    exact fun rest after _ others => .pure (.moreRoutines built others)

theorem routine_succ (role : Routine) : Advances (Grammar.routine (n + 1) role) c
    fun d after => Built tokens c.nextId (.routine d) after.nextId := by
  apply Advances.bind (.of_reads (expectName_reads _ c))
  intro name start onward ⟨kind, stepped⟩
  have named := among.name stepped kind
  apply Advances.bind (.of_reads (expectSymbol_reads _ _ start))
  intro _ list opened _
  have there := (among.onward onward).onward opened
  apply Advances.bind (listUnless_advances (parameters_advances n 0 there) ⟨rfl, nofun⟩)
  intro names closing further ⟨_, parameters⟩
  apply Advances.bind (.of_reads (expectSymbol_reads _ _ closing))
  intro _ brace closed _
  apply Advances.bind (.of_reads (expectSymbol_reads _ _ brace))
  intro _ body braced _
  have within := ((there.onward further).onward closed).onward braced
  apply Advances.bind (all.block within)
  intro statements after _ built
  have lower := ((((onward.trans opened).trans further).trans closed).trans braced).nextId
  exact .pure (.routine named parameters (built.lowered lower))

theorem block_succ : Advances (Grammar.block (n + 1)) c
    fun body after => Built tokens c.nextId (.stmts body) after.nextId := by
  apply Advances.bind (all.blockDeclarations among)
  intro body middle _ built
  apply Advances.bind (.of_reads (expectSymbol_reads _ _ middle))
  exact fun _ after onward _ => .pure (built.raised onward.nextId)

theorem blockDeclarations_succ : Advances (Grammar.blockDeclarations (n + 1)) c
    fun body after => Built tokens c.nextId (.stmts body) after.nextId := by
  apply Advances.bind (.of_reads (atEnd_reads c))
  rintro ended c _ ⟨_, rfl⟩
  apply Advances.bind (.of_reads (sees_reads _ c))
  rintro closes c _ ⟨_, rfl⟩
  split
  · exact .pure .noStmts
  · apply Advances.bind (all.declaration among)
    intro first middle onward built
    apply Advances.bind (all.blockDeclarations (among.onward onward))
    exact fun rest after _ others => .pure (.declarations onward.nextId built others)

theorem statement_succ : Advances (Grammar.statement (n + 1)) c
    fun s after => Built tokens c.nextId (.stmt s) after.nextId ∧ s.declared? = none := by
  apply Advances.of_next
  split
  · next found =>
    apply step_advances among.closed (found ▸ nofun)
    intro middle onward stepped
    rw [← stepped.nextId]
    exact all.forStatement (among.onward onward)
  · next found =>
    apply step_advances among.closed (found ▸ nofun)
    intro middle onward stepped
    rw [← stepped.nextId]
    exact all.ifStatement (among.onward onward)
  · next found =>
    apply step_advances among.closed (found ▸ nofun)
    intro middle onward stepped
    rw [← stepped.nextId]
    exact all.whileStatement (among.onward onward)
  · next found =>
    apply step_advances among.closed (found ▸ nofun)
    intro middle onward stepped
    rw [← stepped.nextId]
    exact returnStatement_advances (among.onward onward) (among.member stepped) found
  · next found =>
    apply step_advances among.closed (found ▸ nofun)
    intro middle onward stepped
    rw [← stepped.nextId]
    exact (all.block (among.onward onward)).map fun _ _ _ built => ⟨.block built, rfl⟩
  · next found =>
    apply step_advances among.closed (found ▸ nofun)
    intro middle onward stepped
    rw [← stepped.nextId]
    exact printStatement_advances (among.onward onward)
  · exact expressionStatement_advances among

theorem forStatement_succ : Advances (Grammar.forStatement (n + 1)) c
    fun s after => Built tokens c.nextId (.stmt s) after.nextId ∧ s.declared? = none := by
  apply Advances.bind (.of_reads (expectSymbol_reads _ _ c))
  intro _ start onward _
  have at_start := among.onward onward
  apply Advances.bind (forInitializer_advances at_start)
  intro initializer test first initialized
  have at_test := at_start.onward first
  apply Advances.bind (expressionUnless_advances at_test .semicolon)
  intro condition semicolon second tested
  apply Advances.bind (.of_reads (expectSymbol_reads _ _ semicolon))
  intro _ step third _
  have at_step := (at_test.onward second).onward third
  apply Advances.bind (expressionUnless_advances at_step .rightParen)
  intro increment paren fourth stepped
  apply Advances.bind (.of_reads (expectSymbol_reads _ _ paren))
  intro _ body fifth _
  apply Advances.bind (all.statement ((at_step.onward fourth).onward fifth))
  intro repeated after _ ⟨looped, plain⟩
  have built := Built.for_ (initialized.lowered onward.nextId) (tested.raised third.nextId)
    (stepped.raised fifth.nextId) looped plain
  refine .pure ⟨built, ?_⟩
  cases initializer <;> rfl

theorem ifStatement_succ : Advances (Grammar.ifStatement (n + 1)) c
    fun s after => Built tokens c.nextId (.stmt s) after.nextId ∧ s.declared? = none := by
  apply Advances.bind (condition_advances among _ _)
  intro test start onward tested
  have there := among.onward onward
  apply Advances.bind (all.statement there)
  intro thenBranch middle further ⟨chosen, plain⟩
  have otherwise : Advances (optionalAfter (.keyword .else_) (Grammar.statement n)) middle
      fun other after => Built tokens middle.nextId (.branch other) after.nextId ∧
        ∀ s ∈ other, s.declared? = none := by
    have taken {t : Token} {other : Cursor} (beyond : Onward middle other)
        (stepped : Stepped middle t other) : Advances (Grammar.statement n) other
        fun s after => Built tokens middle.nextId (.stmt s) after.nextId ∧ s.declared? = none := by
      rw [← stepped.nextId]
      exact all.statement ((there.onward further).onward beyond)
    apply optionalAfter_advances taken ⟨.noBranch, nofun⟩
    rintro s after ⟨built, plain⟩
    refine ⟨.someBranch built, ?_⟩
    rintro _ ⟨⟩
    exact plain
  apply Advances.bind otherwise
  intro elseBranch after _ ⟨built, others⟩
  exact .pure ⟨.if_ tested chosen plain built others, rfl⟩

theorem whileStatement_succ : Advances (Grammar.whileStatement (n + 1)) c
    fun s after => Built tokens c.nextId (.stmt s) after.nextId ∧ s.declared? = none := by
  apply Advances.bind (condition_advances among _ _)
  intro test start onward tested
  apply Advances.bind (all.statement (among.onward onward))
  intro body after _ ⟨repeated, plain⟩
  exact .pure ⟨.while_ tested repeated plain, rfl⟩

end StatementsBuild

theorem statementsBuild (tokens : List Token) (n : Nat) : StatementsBuild tokens n := by
  induction n with
  | zero => constructor <;> intros <;> exact .exhausted
  | succ n ih =>
    exact ⟨ih.declaration_succ, ih.classDeclaration_succ, ih.methods_succ,
      fun among => ih.routine_succ among _, ih.block_succ, ih.blockDeclarations_succ,
      ih.statement_succ, ih.forStatement_succ, ih.ifStatement_succ, ih.whileStatement_succ⟩

theorem program_advances (n : Nat) {c : Cursor} (among : Among tokens c) : Advances (program n) c
    fun body after => Built tokens c.nextId (.stmts body) after.nextId := by
  induction n generalizing c with
  | zero => exact .exhausted
  | succ n ih =>
    apply Advances.bind (.of_reads (atEnd_reads c))
    rintro ended c _ ⟨_, rfl⟩
    split
    · exact .pure .noStmts
    · apply Advances.bind ((statementsBuild tokens n).declaration among)
      intro first middle onward built
      apply Advances.bind (ih (among.onward onward))
      exact fun rest after _ others => .pure (.declarations onward.nextId built others)

/-- What is read as a program is built from its tokens, with or without faults. -/
theorem readProgram_built (tokens : List Token) :
    ∃ high, Built tokens 0 (.stmts (readProgram tokens).1) high := by
  have ahead : (Cursor.start tokens).ahead ⊆ tokens :=
    (List.takeWhile_prefix (l := tokens) _).subset
  have among : Among tokens (.start tokens) := ⟨ahead, start_closed tokens⟩
  have advances := program_advances tokens (budget tokens) among
  unfold readProgram
  cases ended : program (budget tokens) (.start tokens) with
  | ok body after => exact ⟨after.nextId, (Ends.ok_of advances ended).2⟩
  | error failure after =>
    cases failure with
    | rejected e => exact ⟨0, .noStmts⟩
    | exhausted => exact ⟨0, .noStmts⟩

end LoxLang.Grammar
