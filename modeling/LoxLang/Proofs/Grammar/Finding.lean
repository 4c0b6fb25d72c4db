import LoxLang.Proofs.Grammar.Recognition

/-! Faults are found at tokens. A rule rejects or reports a token that it has come to: the next one, or
one that it has stepped over and kept. So a fault of a token list is always found at one of its tokens,
also behind a recovery. -/
namespace LoxLang.Grammar

variable {α β : Type} (P : Token → Prop)

/-- The tokens that a rule can come to from here are such tokens, and so are those at which faults have
been found. -/
structure Cursor.Holds (c : Cursor) : Prop where
  ahead : ∀ t ∈ c.ahead, P t
  stop : P c.stop
  reported : ∀ e ∈ c.reported, P e.found

/-- Among such tokens the rule finds faults at some of them only, and `ok` holds for what it gives. -/
def Finds (rule : Rule α) (ok : α → Prop) : Prop :=
  ∀ c : Cursor, c.Holds P → Ends rule c (fun a after => after.Holds P ∧ ok a)
    fun failure after => after.Holds P ∧ ∀ e, failure = .rejected e → P e.found

/-- The rule finds faults at such tokens only. -/
abbrev Spots (rule : Rule α) : Prop := Finds P rule fun _ => True

variable {P}

namespace Cursor.Holds

variable {c : Cursor}

theorem next (holds : c.Holds P) : P c.next := by
  cases ahead : c.ahead with
  | nil =>
    rw [Cursor.next, ahead]
    exact holds.stop
  | cons t rest =>
    rw [Cursor.next, ahead]
    exact holds.ahead t (ahead ▸ List.mem_cons_self)

theorem passed (holds : c.Holds P) {rest : List Token} (suffix : rest <:+ c.ahead) :
    { c with ahead := rest }.Holds P :=
  ⟨fun t member => holds.ahead t (suffix.subset member), holds.stop, holds.reported⟩

theorem noted (holds : c.Holds P) {e : SyntaxError} (found : P e.found) : (c.noted e).Holds P :=
  ⟨holds.ahead, holds.stop, List.forall_mem_append.mpr ⟨holds.reported, List.forall_mem_singleton.mpr found⟩⟩

end Cursor.Holds

theorem Cursor.Holds.recover {c : Cursor} (holds : c.Holds P) : c.recover.Holds P := by
  unfold Cursor.recover
  split
  · exact holds
  · next t rest ahead =>
    exact holds.passed (ahead ▸ (fromBoundary_suffix t rest).trans (List.suffix_cons t rest))

namespace Finds

variable {rule : Rule α} {following : α → Rule β} {ok ok' : α → Prop} {done : β → Prop} {t : Token}
  {kind : Token.Kind} {cause : SyntaxError.Cause}

theorem pure {a : α} (holds : ok a) : Finds P (Pure.pure a : Rule α) ok := fun _ held => ⟨held, holds⟩

theorem exhausted : Finds P (Grammar.exhausted : Rule α) ok := fun _ held => ⟨held, fun _ => nofun⟩

theorem reject (found : P t) : Finds P (Grammar.reject cause t : Rule α) ok :=
  fun _ held => ⟨held, fun _ same => by cases same; exact found⟩

theorem bind (first : Finds P rule ok) (rest : ∀ a, ok a → Finds P (following a) done) :
    Finds P (rule >>= following) done :=
  fun c held => (first c held).bind fun a after _ ⟨held', holds⟩ => rest a holds after held'

theorem andThen (first : Finds P rule ok) (rest : ∀ a, Finds P (following a) done) :
    Finds P (rule >>= following) done := first.bind fun a _ => rest a

theorem map {f : α → β} (inner : Finds P rule ok) (mapped : ∀ a, ok a → done (f a)) :
    Finds P (f <$> rule) done := inner.bind fun a holds => pure (mapped a holds)

theorem next : Finds P Grammar.next P := fun _ held => ⟨held, held.next⟩

theorem atEnd : Spots P Grammar.atEnd := fun _ held => ⟨held, trivial⟩

theorem sees (kind : Token.Kind) : Spots P (Grammar.sees kind) := fun _ held => ⟨held, trivial⟩

theorem advance : Spots P Grammar.advance :=
  fun c held => ⟨held.passed (List.tail_suffix c.ahead), trivial⟩

theorem accept (kind : Token.Kind) : Finds P (Grammar.accept kind) fun taken => ∀ t ∈ taken, P t := by
  intro c held
  have nothing : ∀ t ∈ none, P t := fun t member => absurd member (Option.not_mem_none t)
  cases ahead : c.ahead with
  | nil =>
    have ended : Grammar.accept kind c = .ok none c := by simp only [Grammar.accept, ahead]
    exact .of_ok ended ⟨held, nothing⟩
  | cons t rest =>
    by_cases matched : t.kind = kind
    · have ended : Grammar.accept kind c = .ok (some t) { c with ahead := rest } := by
        simp only [Grammar.accept, ahead, matched, if_true]
      refine .of_ok ended ⟨held.passed (ahead ▸ List.suffix_cons t rest), ?_⟩
      intro taken member
      rw [← Option.mem_some.mp member]
      exact held.ahead t (ahead ▸ List.mem_cons_self)
    · have ended : Grammar.accept kind c = .ok none c := by
        simp only [Grammar.accept, ahead, matched, if_false]
      exact .of_ok ended ⟨held, nothing⟩

theorem report (found : P t) : Spots P (Grammar.report cause t) := fun _ held => ⟨held.noted found, trivial⟩

theorem reference (name : Token) : Spots P (Grammar.reference name) :=
  fun _ held => ⟨⟨held.ahead, held.stop, held.reported⟩, trivial⟩

theorem recovering {rule : Rule Stmt} (inner : Spots P rule) : Spots P (Grammar.recovering rule) := by
  intro c held
  cases ended : rule c with
  | ok s after => exact .of_ok (recovering_of_ok ended) ⟨((inner c held).ok_of ended).1, trivial⟩
  | error failure after =>
    obtain ⟨held', found⟩ := (inner c held).error_of ended
    cases failure with
    | rejected e =>
      exact .of_ok (recovering_of_rejected ended) ⟨(held'.noted (found e rfl)).recover, trivial⟩
    | exhausted => exact .of_error (recovering_of_exhausted ended) ⟨held', fun _ => nofun⟩

theorem expect (kind : Token.Kind) (cause : SyntaxError.Cause) : Finds P (Grammar.expect kind cause) P := by
  apply (accept kind).bind
  intro taken held
  cases taken with
  | some t => exact pure (held t rfl)
  | none => exact next.bind fun t found => reject found

theorem expectSymbol (s : Symbol) (place : SyntaxError.Place) : Spots P (Grammar.expectSymbol s place) :=
  (expect _ _).andThen fun _ => pure trivial

theorem expectName (role : SyntaxError.NameRole) : Finds P (Grammar.expectName role) P := expect _ _

theorem optionalAfter (kind : Token.Kind) (inner : Finds P rule ok) :
    Spots P (Grammar.optionalAfter kind rule) := by
  apply (accept kind).andThen
  intro taken
  cases taken with
  | none => exact pure trivial
  | some _ => exact inner.map fun _ _ => trivial

theorem listUnless {rule : Rule (List α)} (closing : Symbol) (inner : Spots P rule) :
    Spots P (Grammar.listUnless closing rule) := by
  apply (sees _).andThen
  intro seen
  cases seen with
  | true => exact pure trivial
  | false => exact inner

theorem boundArity (before : Nat) (cause : SyntaxError.Cause) : Spots P (Grammar.boundArity before cause) := by
  unfold Grammar.boundArity
  split
  · exact next.bind fun t found => report found
  · exact pure trivial

theorem operator (tier : Tier) : Finds P tier.operator? fun taken => ∀ t ∈ taken, P t := by
  apply next.bind
  intro t found
  split
  · refine advance.andThen fun _ => pure ?_
    rintro _ ⟨⟩
    exact found
  · exact pure nofun

theorem leftless {right : Rule Expr} (found : P t) (operand : Spots P right) :
    Spots P (Grammar.leftless t right) :=
  advance.andThen fun _ => operand.andThen fun _ => reject found

theorem assignTo (target : Expr) {equals : Token} (value : Expr) (found : P equals) :
    Spots P (Grammar.assignTo target equals value) := by
  cases target
  case «variable» r => exact (reference r.name).andThen fun _ => pure trivial
  case get object name => exact pure trivial
  all_goals exact (report found).andThen fun _ => pure trivial

end Finds

variable (P)

/-- With this budget the rules of expressions find faults at such tokens only. -/
structure ExpressionsSpot (n : Nat) : Prop where
  assignment : Spots P (assignment n)
  conditional : Spots P (conditional n)
  binary : ∀ tier, Spots P (binary n tier)
  binaryRest : ∀ tier left, Spots P (binaryRest n tier left)
  operand : ∀ tier, Spots P (operand n tier)
  power : Spots P (power n)
  unary : Spots P (unary n)
  call : Spots P (call n)
  callRest : ∀ callee, Spots P (callRest n callee)
  arguments : ∀ before, Spots P (arguments n before)
  primary : Spots P (primary n)

variable {P}

section Expressions

variable {n : Nat} (all : ExpressionsSpot P n)
include all

theorem assignment_spots : Spots P (assignment (n + 1)) := by
  apply all.conditional.andThen
  intro target
  apply (Finds.accept _).bind
  intro taken found
  cases taken with
  | none => exact .pure trivial
  | some equals => exact all.assignment.andThen fun value => .assignTo target value (found equals rfl)

theorem conditional_spots : Spots P (conditional (n + 1)) := by
  apply (all.binary .or_).andThen
  intro condition
  apply (Finds.accept _).andThen
  intro taken
  cases taken with
  | none => exact .pure trivial
  | some _ =>
    exact all.assignment.andThen fun _ => (Finds.expectSymbol _ _).andThen fun _ =>
      all.conditional.andThen fun _ => .pure trivial

theorem binary_spots (tier : Tier) : Spots P (binary (n + 1) tier) :=
  (all.operand tier).andThen fun left => all.binaryRest tier left

theorem binaryRest_spots (tier : Tier) (left : Expr) : Spots P (binaryRest (n + 1) tier left) := by
  apply (Finds.operator tier).andThen
  intro taken
  cases taken with
  | none => exact .pure trivial
  | some operator => exact (all.operand tier).andThen fun _ => all.binaryRest tier _

theorem operand_spots (tier : Tier) : Spots P (operand (n + 1) tier) := by
  unfold operand
  split
  · exact all.binary _
  · exact all.power

theorem power_spots : Spots P (power (n + 1)) := by
  apply all.unary.andThen
  intro base
  apply (Finds.accept _).andThen
  intro taken
  cases taken with
  | none => exact .pure trivial
  | some operator => exact all.power.andThen fun _ => .pure trivial

theorem unary_spots : Spots P (unary (n + 1)) := by
  apply Finds.next.andThen
  intro t
  split
  · exact Finds.advance.andThen fun _ => all.unary.andThen fun _ => .pure trivial
  · exact Finds.advance.andThen fun _ => all.unary.andThen fun _ => .pure trivial
  · exact all.call

theorem call_spots : Spots P (call (n + 1)) := all.primary.andThen fun callee => all.callRest callee

theorem callRest_spots (callee : Expr) : Spots P (callRest (n + 1) callee) := by
  apply Finds.next.andThen
  intro t
  split
  · exact Finds.advance.andThen fun _ => (Finds.listUnless _ (all.arguments 0)).andThen fun _ =>
      (Finds.expect _ _).andThen fun _ => all.callRest _
  · exact Finds.advance.andThen fun _ => (Finds.expectName _).andThen fun _ => all.callRest _
  · exact .pure trivial

theorem arguments_spots (before : Nat) : Spots P (arguments (n + 1) before) := by
  apply (Finds.boundArity _ _).andThen
  intro _
  apply all.assignment.andThen
  intro first
  apply (Finds.accept _).andThen
  intro taken
  cases taken with
  | none => exact .pure trivial
  | some _ => exact (all.arguments _).andThen fun _ => .pure trivial

theorem primary_spots : Spots P (primary (n + 1)) := by
  have literal (e : Expr) : Spots P (do advance; return e) := Finds.advance.andThen fun _ => .pure trivial
  apply Finds.next.bind
  intro t found
  split
  · exact literal _
  · exact literal _
  · exact literal _
  · exact literal _
  · exact literal _
  · exact Finds.advance.andThen fun _ => (Finds.reference t).andThen fun _ => .pure trivial
  · exact Finds.advance.andThen fun _ => (Finds.expectSymbol _ _).andThen fun _ =>
      (Finds.expectName _).andThen fun _ => (Finds.reference t).andThen fun _ => .pure trivial
  · exact Finds.advance.andThen fun _ => (Finds.reference t).andThen fun _ => .pure trivial
  · exact Finds.advance.andThen fun _ => all.assignment.andThen fun _ =>
      (Finds.expectSymbol _ _).andThen fun _ => .pure trivial
  -- an operator with nothing on its left, tier by tier
  iterate 10
    exact .leftless found (all.binary _)
  · exact .leftless found all.power
  · exact .reject found

end Expressions

theorem expressionsSpot (n : Nat) : ExpressionsSpot P n := by
  induction n with
  | zero => constructor <;> intros <;> exact .exhausted
  | succ n all =>
    exact ⟨assignment_spots all, conditional_spots all, binary_spots all, binaryRest_spots all,
      operand_spots all, power_spots all, unary_spots all, call_spots all, callRest_spots all,
      arguments_spots all, primary_spots all⟩

namespace Finds

variable (n : Nat)

theorem expressionUnless (closing : Symbol) : Spots P (Grammar.expressionUnless closing n) := by
  apply (sees _).andThen
  intro seen
  cases seen with
  | true => exact pure trivial
  | false => exact (expressionsSpot n).assignment.andThen fun _ => pure trivial

theorem expressionStatement : Spots P (Grammar.expressionStatement n) :=
  (expressionsSpot n).assignment.andThen fun _ => (expectSymbol _ _).andThen fun _ => pure trivial

theorem printStatement : Spots P (Grammar.printStatement n) :=
  (expressionsSpot n).assignment.andThen fun _ => (expectSymbol _ _).andThen fun _ => pure trivial

theorem returnStatement (keyword : Token) : Spots P (Grammar.returnStatement keyword n) :=
  (expressionUnless n _).andThen fun _ => (expectSymbol _ _).andThen fun _ => pure trivial

theorem varDeclaration : Spots P (Grammar.varDeclaration n) :=
  (expectName _).andThen fun _ => (optionalAfter _ (expressionsSpot n).assignment).andThen fun _ =>
    (expectSymbol _ _).andThen fun _ => pure trivial

theorem condition (opening closing : SyntaxError.Place) :
    Spots P (Grammar.condition opening closing n) :=
  (expectSymbol _ _).andThen fun _ => (expressionsSpot n).assignment.andThen fun _ =>
    (expectSymbol _ _).andThen fun _ => pure trivial

theorem forInitializer : Spots P (Grammar.forInitializer n) := by
  apply next.andThen
  intro t
  split
  · exact advance.andThen fun _ => pure trivial
  · exact advance.andThen fun _ => (varDeclaration n).map fun _ => id
  · exact (expressionStatement n).map fun _ => id

theorem parameters (before : Nat) : Spots P (Grammar.parameters n before) := by
  induction n generalizing before with
  | zero => exact exhausted
  | succ n ih =>
    apply (boundArity _ _).andThen
    intro _
    apply (expectName _).andThen
    intro first
    apply (accept _).andThen
    intro taken
    cases taken with
    | none => exact pure trivial
    | some _ => exact (ih _).andThen fun _ => pure trivial

end Finds

variable (P)

/-- With this budget the rules of statements find faults at such tokens only. -/
structure StatementsSpot (n : Nat) : Prop where
  declaration : Spots P (declaration n)
  classDeclaration : Spots P (classDeclaration n)
  methods : Spots P (methods n)
  routine : ∀ role, Spots P (routine n role)
  block : Spots P (block n)
  blockDeclarations : Spots P (blockDeclarations n)
  statement : Spots P (statement n)
  forStatement : Spots P (forStatement n)
  ifStatement : Spots P (ifStatement n)
  whileStatement : Spots P (whileStatement n)

variable {P}

section Statements

variable {n : Nat} (all : StatementsSpot P n)
include all

theorem declaration_spots : Spots P (declaration (n + 1)) := by
  apply Finds.recovering
  apply Finds.next.andThen
  intro t
  split
  · exact Finds.advance.andThen fun _ => all.classDeclaration
  · exact Finds.advance.andThen fun _ => (all.routine _).map fun _ => id
  · exact Finds.advance.andThen fun _ => .varDeclaration n
  · exact all.statement

theorem classDeclaration_spots : Spots P (classDeclaration (n + 1)) := by
  have parent : Spots P (reference =<< expectName .ofSuperclass) :=
    (Finds.expectName _).andThen fun t => .reference t
  exact (Finds.expectName _).andThen fun _ => (Finds.optionalAfter _ parent).andThen fun _ =>
    (Finds.expectSymbol _ _).andThen fun _ => all.methods.andThen fun _ =>
      (Finds.expectSymbol _ _).andThen fun _ => .pure trivial

theorem methods_spots : Spots P (methods (n + 1)) := by
  apply Finds.atEnd.andThen
  intro ended
  apply (Finds.sees _).andThen
  intro seen
  split
  · exact .pure trivial
  · exact (all.routine _).andThen fun _ => all.methods.andThen fun _ => .pure trivial

theorem routine_spots (role : Routine) : Spots P (routine (n + 1) role) :=
  (Finds.expectName _).andThen fun _ => (Finds.expectSymbol _ _).andThen fun _ =>
    (Finds.listUnless _ (.parameters n 0)).andThen fun _ => (Finds.expectSymbol _ _).andThen fun _ =>
      (Finds.expectSymbol _ _).andThen fun _ => all.block.andThen fun _ => .pure trivial

theorem block_spots : Spots P (block (n + 1)) :=
  all.blockDeclarations.andThen fun _ => (Finds.expectSymbol _ _).andThen fun _ => .pure trivial

theorem blockDeclarations_spots : Spots P (blockDeclarations (n + 1)) := by
  apply Finds.atEnd.andThen
  intro ended
  apply (Finds.sees _).andThen
  intro seen
  split
  · exact .pure trivial
  · exact all.declaration.andThen fun _ => all.blockDeclarations.andThen fun _ => .pure trivial

theorem statement_spots : Spots P (statement (n + 1)) := by
  apply Finds.next.andThen
  intro t
  split
  · exact Finds.advance.andThen fun _ => all.forStatement
  · exact Finds.advance.andThen fun _ => all.ifStatement
  · exact Finds.advance.andThen fun _ => all.whileStatement
  · exact Finds.advance.andThen fun _ => .returnStatement n t
  · exact Finds.advance.andThen fun _ => all.block.map fun _ => id
  · exact Finds.advance.andThen fun _ => .printStatement n
  · exact .expressionStatement n

theorem forStatement_spots : Spots P (forStatement (n + 1)) :=
  (Finds.expectSymbol _ _).andThen fun _ => (Finds.forInitializer n).andThen fun _ =>
    (Finds.expressionUnless n _).andThen fun _ => (Finds.expectSymbol _ _).andThen fun _ =>
      (Finds.expressionUnless n _).andThen fun _ => (Finds.expectSymbol _ _).andThen fun _ =>
        all.statement.andThen fun _ => .pure trivial

theorem ifStatement_spots : Spots P (ifStatement (n + 1)) :=
  (Finds.condition n _ _).andThen fun _ => all.statement.andThen fun _ =>
    (Finds.optionalAfter _ all.statement).andThen fun _ => .pure trivial

theorem whileStatement_spots : Spots P (whileStatement (n + 1)) :=
  (Finds.condition n _ _).andThen fun _ => all.statement.andThen fun _ => .pure trivial

end Statements

theorem statementsSpot (n : Nat) : StatementsSpot P n := by
  induction n with
  | zero => constructor <;> intros <;> exact .exhausted
  | succ n all =>
    exact ⟨declaration_spots all, classDeclaration_spots all, methods_spots all, routine_spots all,
      block_spots all, blockDeclarations_spots all, statement_spots all, forStatement_spots all,
      ifStatement_spots all, whileStatement_spots all⟩

theorem program_spots (n : Nat) : Spots P (program n) := by
  induction n with
  | zero => exact .exhausted
  | succ n ih =>
    apply Finds.atEnd.andThen
    intro ended
    split
    · exact .pure trivial
    · exact (statementsSpot n).declaration.andThen fun _ => ih.andThen fun _ => .pure trivial

/-- The faults of a token list with an end marker are found at its tokens. -/
theorem readProgram_found {tokens : List Token} (ended : ∃ t ∈ tokens, t.kind = .endOfFile)
    {e : SyntaxError} (member : e ∈ (readProgram tokens).2) : e.found ∈ tokens := by
  have start : (Cursor.start tokens).Holds (· ∈ tokens) := by
    refine ⟨fun t ahead => (List.takeWhile_prefix _).subset ahead, ?_,
      fun _ member => absurd member List.not_mem_nil⟩
    obtain ⟨last, among, marker⟩ := ended
    cases found : tokens.find? (·.kind = .endOfFile) with
    | none => exact absurd (decide_eq_true marker) (List.find?_eq_none.mp found last among)
    | some t =>
      simp only [Cursor.start, found, Option.getD_some]
      exact List.mem_of_find?_eq_some found
  have spots := program_spots (budget tokens) _ start
  unfold readProgram at member
  cases read : program (budget tokens) (.start tokens) with
  | ok body after =>
    rw [read] at member
    exact (spots.ok_of read).1.reported e member
  | error failure after =>
    obtain ⟨held, found⟩ := spots.error_of read
    rw [read] at member
    cases failure with
    | exhausted => exact held.reported e member
    | rejected last =>
      obtain earlier | same := List.mem_append.mp member
      · exact held.reported e earlier
      · rw [List.mem_singleton.mp same]
        exact found last rfl

end LoxLang.Grammar
