import LoxLang.Proofs.Grammar.Building.Statement

/-! How the rules are made up. Every rule is composed of a few steps that look at the next token, step
over it or leave the tokens alone, in sequence and with recovery. So whatever holds of these steps and
is handed on by a sequence and by recovery holds of every rule, with any budget. -/
namespace LoxLang.Grammar
open Cursor

/-- The rule is composed of steps that look no further than the next token. -/
inductive Composed : {α : Type} → Rule α → Prop
  | pure {α : Type} (a : α) : Composed (Pure.pure a)
  | exhausted {α : Type} : Composed (exhausted : Rule α)
  | reject {α : Type} (cause : SyntaxError.Cause) (found : Token) : Composed (reject cause found : Rule α)
  | next : Composed next
  | atEnd : Composed atEnd
  | sees (kind : Token.Kind) : Composed (sees kind)
  | advance : Composed advance
  | accept (kind : Token.Kind) : Composed (accept kind)
  | report (cause : SyntaxError.Cause) (found : Token) : Composed (report cause found)
  | freshId : Composed freshId
  | bind {α β : Type} {rule : Rule α} {following : α → Rule β} (first : Composed rule)
    (rest : ∀ a, Composed (following a)) : Composed (rule >>= following)
  | recovering {rule : Rule Stmt} (inner : Composed rule) : Composed (recovering rule)

namespace Composed

variable {α β : Type} {rule : Rule α}

theorem map (f : α → β) (inner : Composed rule) : Composed (f <$> rule) :=
  inner.bind fun a => .pure (f a)

theorem expect (kind : Token.Kind) (cause : SyntaxError.Cause) : Composed (Grammar.expect kind cause) := by
  apply (accept kind).bind
  intro taken
  cases taken with
  | some t => exact .pure t
  | none => exact next.bind fun t => .reject cause t

theorem expectSymbol (s : Symbol) (place : SyntaxError.Place) :
    Composed (Grammar.expectSymbol s place) := (expect _ _).bind fun _ => .pure ()

theorem expectName (role : SyntaxError.NameRole) : Composed (Grammar.expectName role) := expect _ _

theorem reference (name : Token) : Composed (Grammar.reference name) := freshId.bind fun _ => .pure _

theorem optionalAfter (kind : Token.Kind) (inner : Composed rule) :
    Composed (Grammar.optionalAfter kind rule) := by
  apply (accept kind).bind
  intro taken
  cases taken with
  | none => exact .pure none
  | some _ => exact inner.map some

theorem listUnless {rule : Rule (List α)} (closing : Symbol) (inner : Composed rule) :
    Composed (Grammar.listUnless closing rule) := by
  apply (sees _).bind
  intro seen
  cases seen with
  | true => exact .pure []
  | false => exact inner

theorem boundArity (before : Nat) (cause : SyntaxError.Cause) :
    Composed (Grammar.boundArity before cause) := by
  unfold Grammar.boundArity
  split
  · exact next.bind fun t => .report cause t
  · exact .pure ()

theorem operator (tier : Tier) : Composed tier.operator? := by
  apply next.bind
  intro t
  split
  · exact advance.bind fun _ => .pure _
  · exact .pure none

theorem assignTo (target : Expr) (equals : Token) (value : Expr) :
    Composed (Grammar.assignTo target equals value) := by
  cases target
  case «variable» r => exact (reference r.name).bind fun _ => .pure _
  case get object name => exact .pure _
  all_goals exact (report _ equals).bind fun _ => .pure value

theorem leftless {right : Rule Expr} (operator : Token) (rights : Composed right) :
    Composed (Grammar.leftless operator right) :=
  advance.bind fun _ => rights.bind fun _ => .reject _ operator

/-- However it is composed, a rule reads on. -/
theorem advances (composed : Composed rule) (c : Cursor) : Advances rule c fun _ _ => True := by
  have step {α : Type} {rule : Rule α} {c : Cursor} {ok : α → Cursor → Prop} (reads : Reads rule c ok) :
      Advances rule c fun _ _ => True := (Advances.of_reads reads).mono fun _ _ _ _ => trivial
  induction composed generalizing c with
  | pure a => exact .pure trivial
  | exhausted => exact .exhausted
  | reject cause found => exact .reject
  | next => exact step (next_reads c)
  | atEnd => exact step (atEnd_reads c)
  | sees kind => exact step (sees_reads kind c)
  | advance => exact ⟨⟨List.tail_suffix _, rfl, List.prefix_refl _, Nat.le_refl _⟩, trivial⟩
  | accept kind => exact step (accept_reads kind c)
  | report cause found => exact step (report_reads cause found c)
  | freshId => exact ⟨⟨List.suffix_refl _, rfl, List.prefix_refl _, Nat.le_succ _⟩, trivial⟩
  | bind first rest ih ih' => exact (ih c).bind fun a after _ _ => ih' a after
  | recovering inner ih => exact (recovering_advances (ih c)).mono fun _ _ _ _ => trivial

end Composed

/-- The rules of expressions with this budget are composed. -/
structure ExpressionsComposed (n : Nat) : Prop where
  assignment : Composed (assignment n)
  conditional : Composed (conditional n)
  binary : ∀ tier, Composed (binary n tier)
  binaryRest : ∀ tier left, Composed (binaryRest n tier left)
  operand : ∀ tier, Composed (operand n tier)
  power : Composed (power n)
  unary : Composed (unary n)
  call : Composed (call n)
  callRest : ∀ callee, Composed (callRest n callee)
  arguments : ∀ before, Composed (arguments n before)
  primary : Composed (primary n)

section Expressions

variable {n : Nat} (all : ExpressionsComposed n)
include all

theorem assignment_composed : Composed (assignment (n + 1)) := by
  apply all.conditional.bind
  intro target
  apply (Composed.accept _).bind
  intro taken
  cases taken with
  | none => exact .pure target
  | some equals => exact all.assignment.bind fun value => .assignTo target equals value

theorem conditional_composed : Composed (conditional (n + 1)) := by
  apply (all.binary .or_).bind
  intro condition
  apply (Composed.accept _).bind
  intro taken
  cases taken with
  | none => exact .pure condition
  | some _ =>
    exact all.assignment.bind fun _ => (Composed.expectSymbol _ _).bind fun _ =>
      all.conditional.bind fun _ => .pure _

theorem binary_composed (tier : Tier) : Composed (binary (n + 1) tier) :=
  (all.operand tier).bind fun left => all.binaryRest tier left

theorem binaryRest_composed (tier : Tier) (left : Expr) : Composed (binaryRest (n + 1) tier left) := by
  apply (Composed.operator tier).bind
  intro taken
  cases taken with
  | none => exact .pure left
  | some operator => exact (all.operand tier).bind fun _ => all.binaryRest tier _

theorem operand_composed (tier : Tier) : Composed (operand (n + 1) tier) := by
  unfold operand
  split
  · exact all.binary _
  · exact all.power

theorem power_composed : Composed (power (n + 1)) := by
  apply all.unary.bind
  intro base
  apply (Composed.accept _).bind
  intro taken
  cases taken with
  | none => exact .pure base
  | some operator => exact all.power.bind fun _ => .pure _

theorem unary_composed : Composed (unary (n + 1)) := by
  apply Composed.next.bind
  intro t
  split
  · exact Composed.advance.bind fun _ => all.unary.bind fun _ => .pure _
  · exact Composed.advance.bind fun _ => all.unary.bind fun _ => .pure _
  · exact all.call

theorem call_composed : Composed (call (n + 1)) := all.primary.bind fun callee => all.callRest callee

theorem callRest_composed (callee : Expr) : Composed (callRest (n + 1) callee) := by
  apply Composed.next.bind
  intro t
  split
  · exact Composed.advance.bind fun _ => (Composed.listUnless _ (all.arguments 0)).bind fun _ =>
      (Composed.expect _ _).bind fun _ => all.callRest _
  · exact Composed.advance.bind fun _ => (Composed.expectName _).bind fun _ => all.callRest _
  · exact .pure callee

theorem arguments_composed (before : Nat) : Composed (arguments (n + 1) before) := by
  apply (Composed.boundArity _ _).bind
  intro _
  apply all.assignment.bind
  intro first
  apply (Composed.accept _).bind
  intro taken
  cases taken with
  | none => exact .pure [first]
  | some _ => exact (all.arguments _).bind fun _ => .pure _

theorem primary_composed : Composed (primary (n + 1)) := by
  have literal (e : Expr) : Composed (do advance; return e) := Composed.advance.bind fun _ => .pure e
  apply Composed.next.bind
  intro t
  split
  · exact literal _
  · exact literal _
  · exact literal _
  · exact literal _
  · exact literal _
  · exact Composed.advance.bind fun _ => (Composed.reference t).bind fun _ => .pure _
  · exact Composed.advance.bind fun _ => (Composed.expectSymbol _ _).bind fun _ =>
      (Composed.expectName _).bind fun _ => (Composed.reference t).bind fun _ => .pure _
  · exact Composed.advance.bind fun _ => (Composed.reference t).bind fun _ => .pure _
  · exact Composed.advance.bind fun _ => all.assignment.bind fun _ =>
      (Composed.expectSymbol _ _).bind fun _ => .pure _
  -- an operator with nothing on its left, tier by tier
  iterate 10
    exact .leftless t (all.binary _)
  · exact .leftless t all.power
  · exact .reject _ t

end Expressions

theorem expressionsComposed (n : Nat) : ExpressionsComposed n := by
  induction n with
  | zero => constructor <;> intros <;> exact .exhausted
  | succ n all =>
    exact ⟨assignment_composed all, conditional_composed all, binary_composed all,
      binaryRest_composed all, operand_composed all, power_composed all, unary_composed all,
      call_composed all, callRest_composed all, arguments_composed all, primary_composed all⟩

namespace Composed

variable (n : Nat)

theorem expressionUnless (closing : Symbol) : Composed (Grammar.expressionUnless closing n) := by
  apply (sees _).bind
  intro seen
  cases seen with
  | true => exact .pure none
  | false => exact (expressionsComposed n).assignment.bind fun _ => .pure _

theorem expressionStatement : Composed (Grammar.expressionStatement n) :=
  (expressionsComposed n).assignment.bind fun _ => (expectSymbol _ _).bind fun _ => .pure _

theorem printStatement : Composed (Grammar.printStatement n) :=
  (expressionsComposed n).assignment.bind fun _ => (expectSymbol _ _).bind fun _ => .pure _

theorem returnStatement (keyword : Token) : Composed (Grammar.returnStatement keyword n) :=
  (expressionUnless n _).bind fun _ => (expectSymbol _ _).bind fun _ => .pure _

theorem varDeclaration : Composed (Grammar.varDeclaration n) :=
  (expectName _).bind fun _ => ((expressionsComposed n).assignment.optionalAfter _).bind fun _ =>
    (expectSymbol _ _).bind fun _ => .pure _

theorem condition (opening closing : SyntaxError.Place) :
    Composed (Grammar.condition opening closing n) :=
  (expectSymbol _ _).bind fun _ => (expressionsComposed n).assignment.bind fun _ =>
    (expectSymbol _ _).bind fun _ => .pure _

theorem forInitializer : Composed (Grammar.forInitializer n) := by
  apply next.bind
  intro t
  split
  · exact advance.bind fun _ => .pure none
  · exact advance.bind fun _ => (varDeclaration n).map some
  · exact (expressionStatement n).map some

theorem parameters (before : Nat) : Composed (Grammar.parameters n before) := by
  induction n generalizing before with
  | zero => exact .exhausted
  | succ n ih =>
    apply (boundArity _ _).bind
    intro _
    apply (expectName _).bind
    intro first
    apply (accept _).bind
    intro taken
    cases taken with
    | none => exact .pure [first]
    | some _ => exact (ih _).bind fun _ => .pure _

end Composed

/-- The rules of statements with this budget are composed. -/
structure StatementsComposed (n : Nat) : Prop where
  declaration : Composed (declaration n)
  classDeclaration : Composed (classDeclaration n)
  methods : Composed (methods n)
  routine : ∀ role, Composed (routine n role)
  block : Composed (block n)
  blockDeclarations : Composed (blockDeclarations n)
  statement : Composed (statement n)
  forStatement : Composed (forStatement n)
  ifStatement : Composed (ifStatement n)
  whileStatement : Composed (whileStatement n)

section Statements

variable {n : Nat} (all : StatementsComposed n)
include all

theorem declaration_composed : Composed (declaration (n + 1)) := by
  apply Composed.recovering
  apply Composed.next.bind
  intro t
  split
  · exact Composed.advance.bind fun _ => all.classDeclaration
  · exact Composed.advance.bind fun _ => (all.routine _).map Stmt.function
  · exact Composed.advance.bind fun _ => .varDeclaration n
  · exact all.statement

theorem classDeclaration_composed : Composed (classDeclaration (n + 1)) := by
  have parent : Composed (reference =<< expectName .ofSuperclass) :=
    (Composed.expectName _).bind fun t => .reference t
  exact (Composed.expectName _).bind fun _ => (parent.optionalAfter _).bind fun _ =>
    (Composed.expectSymbol _ _).bind fun _ => all.methods.bind fun _ =>
      (Composed.expectSymbol _ _).bind fun _ => .pure _

theorem methods_composed : Composed (methods (n + 1)) := by
  apply Composed.atEnd.bind
  intro ended
  apply (Composed.sees _).bind
  intro seen
  split
  · exact .pure []
  · exact (all.routine _).bind fun _ => all.methods.bind fun _ => .pure _

theorem routine_composed (role : Routine) : Composed (routine (n + 1) role) :=
  (Composed.expectName _).bind fun _ => (Composed.expectSymbol _ _).bind fun _ =>
    (Composed.listUnless _ (.parameters n 0)).bind fun _ => (Composed.expectSymbol _ _).bind fun _ =>
      (Composed.expectSymbol _ _).bind fun _ => all.block.bind fun _ => .pure _

theorem block_composed : Composed (block (n + 1)) :=
  all.blockDeclarations.bind fun _ => (Composed.expectSymbol _ _).bind fun _ => .pure _

theorem blockDeclarations_composed : Composed (blockDeclarations (n + 1)) := by
  apply Composed.atEnd.bind
  intro ended
  apply (Composed.sees _).bind
  intro seen
  split
  · exact .pure []
  · exact all.declaration.bind fun _ => all.blockDeclarations.bind fun _ => .pure _

theorem statement_composed : Composed (statement (n + 1)) := by
  apply Composed.next.bind
  intro t
  split
  · exact Composed.advance.bind fun _ => all.forStatement
  · exact Composed.advance.bind fun _ => all.ifStatement
  · exact Composed.advance.bind fun _ => all.whileStatement
  · exact Composed.advance.bind fun _ => .returnStatement n t
  · exact Composed.advance.bind fun _ => all.block.map Stmt.block
  · exact Composed.advance.bind fun _ => .printStatement n
  · exact .expressionStatement n

theorem forStatement_composed : Composed (forStatement (n + 1)) :=
  (Composed.expectSymbol _ _).bind fun _ => (Composed.forInitializer n).bind fun _ =>
    (Composed.expressionUnless n _).bind fun _ => (Composed.expectSymbol _ _).bind fun _ =>
      (Composed.expressionUnless n _).bind fun _ => (Composed.expectSymbol _ _).bind fun _ =>
        all.statement.bind fun _ => .pure _

theorem ifStatement_composed : Composed (ifStatement (n + 1)) :=
  (Composed.condition n _ _).bind fun _ => all.statement.bind fun _ =>
    (all.statement.optionalAfter _).bind fun _ => .pure _

theorem whileStatement_composed : Composed (whileStatement (n + 1)) :=
  (Composed.condition n _ _).bind fun _ => all.statement.bind fun _ => .pure _

end Statements

theorem statementsComposed (n : Nat) : StatementsComposed n := by
  induction n with
  | zero => constructor <;> intros <;> exact .exhausted
  | succ n all =>
    exact ⟨declaration_composed all, classDeclaration_composed all, methods_composed all,
      routine_composed all, block_composed all, blockDeclarations_composed all,
      statement_composed all, forStatement_composed all, ifStatement_composed all,
      whileStatement_composed all⟩

theorem program_composed (n : Nat) : Composed (program n) := by
  induction n with
  | zero => exact .exhausted
  | succ n ih =>
    apply Composed.atEnd.bind
    intro ended
    split
    · exact .pure []
    · exact (statementsComposed n).declaration.bind fun _ => ih.bind fun _ => .pure _

end LoxLang.Grammar
