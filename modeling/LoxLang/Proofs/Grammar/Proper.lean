import LoxLang.Operator
import LoxLang.Proofs.Grammar.Building.Statement
import LoxLang.Proofs.Grammar.Choice
import LoxLang.Proofs.Scope.Place

/-! What the grammar keeps out of its trees, whatever is wrong with the tokens. A node for an operator has an
operator of its kind, a superclass is named by an identifier, and no declaration is directly a branch of an `if`
or the body of a loop. A `for` loop is gone from the tree, so what its clauses and its body were is said of the
rule that reads them. -/
namespace LoxLang
open Scope

/-- The operators of one operand. -/
def Operator.unaries : List Token.Kind := [.symbol .bang, .symbol .minus]

/-- The operators of two operands that are both evaluated. -/
def Operator.binaries : List Token.Kind :=
  [.symbol .plus, .symbol .minus, .symbol .star, .symbol .slash, .symbol .percent, .symbol .starStar,
    .symbol .equalEqual, .symbol .bangEqual, .symbol .less, .symbol .lessEqual, .symbol .greater,
    .symbol .greaterEqual]

/-- The operators that can be decided by their left operand. -/
def Operator.logicals : List Token.Kind := [.keyword .and_, .keyword .or_]

/-- The operator of the expression itself is one of its kind. -/
def Expr.Proper : Expr → Prop
  | .unary operator _ => operator.kind ∈ Operator.unaries
  | .binary _ operator _ => operator.kind ∈ Operator.binaries
  | .logical _ operator _ => operator.kind ∈ Operator.logicals
  | _ => True

/-- No branch and no loop body of the statement itself is a declaration, and a superclass is named by an
identifier. -/
def Stmt.Proper : Stmt → Prop
  | .if_ _ thenBranch elseBranch => thenBranch.declared? = none ∧ ∀ s ∈ elseBranch, s.declared? = none
  | .while_ _ body => body.declared? = none
  | .class_ _ clause _ => ∀ parent ∈ clause, parent.name.kind = .identifier
  | _ => True

/-- The statement at the place and all expressions in it, but for those of statements in it. -/
structure Scope.Place.Proper (place : Place) : Prop where
  stmt : place.stmt.Proper
  operands : ∀ e ∈ place.stmt.operands, ∀ part ∈ e.parts, part.Proper

/-- A statement stands at a place of its own. -/
theorem Scope.self_mem_stmtPlaces (path : List Encloser) (s : Stmt) : ⟨path, s⟩ ∈ stmtPlaces path s := by
  cases s with
  | if_ condition thenBranch elseBranch => cases elseBranch <;> exact List.mem_cons_self
  | function d =>
    cases d
    exact List.mem_cons_self
  | _ => exact List.mem_cons_self

namespace Grammar

/-- All expressions and statements in the tree are proper. -/
def Tree.Proper : Tree → Prop
  | .expr e => ∀ part ∈ e.parts, part.Proper
  | .exprs es => ∀ part ∈ Expr.partsOf es, part.Proper
  | .clause e => ∀ e' ∈ e, ∀ part ∈ e'.parts, part.Proper
  | .stmt s => ∀ path, ∀ place ∈ stmtPlaces path s, place.Proper
  | .stmts body => ∀ path, ∀ place ∈ stmtsPlaces path body, place.Proper
  | .branch s => ∀ s' ∈ s, ∀ path, ∀ place ∈ stmtPlaces path s', place.Proper
  | .routine d => ∀ path, ∀ place ∈ stmtsPlaces path d.body, place.Proper
  | .routines ds => ∀ path clause, ∀ place ∈ methodsPlaces path clause ds, place.Proper

theorem tier_node_proper {tier : Tier} {operator : Token} (chosen : Tier.ofKind? operator.kind = some tier)
    (left right : Expr) : (tier.node left operator right).Proper := by
  unfold Tier.ofKind? at chosen
  split at chosen <;> cases chosen <;> simp_all [Tier.node, Expr.Proper, Operator.binaries, Operator.logicals]

theorem parts_of_node (tier : Tier) (left right : Expr) (operator : Token) :
    (tier.node left operator right).parts = tier.node left operator right :: (left.parts ++ right.parts) := by
  cases tier <;> rfl

theorem proper_for {i : Option Stmt} {e step : Option Expr} {s : Stmt} (initializer : (Tree.branch i).Proper)
    (condition : (Tree.clause e).Proper) (increment : (Tree.clause step).Proper) (body : (Tree.stmt s).Proper)
    (plain : s.declared? = none) : (Tree.stmt (forLoop i e step s)).Proper := by
  intro path
  have test : ∀ part ∈ (e.getD (.literal (.boolean true))).parts, part.Proper := by
    cases e with
    | none => simp [Expr.parts, Expr.Proper]
    | some e => exact condition e rfl
  have repeated (path : List Encloser) : (∀ place ∈ stmtPlaces path (loopBody s step), place.Proper) ∧
      (loopBody s step).declared? = none := by
    cases step with
    | none => exact ⟨body path, plain⟩
    | some e =>
      refine ⟨List.forall_mem_cons.mpr ⟨⟨trivial, List.forall_mem_nil _⟩, List.forall_mem_append.mpr ⟨body _, ?_⟩⟩, rfl⟩
      exact List.forall_mem_singleton.mpr ⟨trivial, List.forall_mem_singleton.mpr (increment e rfl)⟩
  have loop (path : List Encloser) : ∀ place ∈ stmtPlaces path
      (.while_ (e.getD (.literal (.boolean true))) (loopBody s step)), place.Proper := by
    obtain ⟨places, plain⟩ := repeated path
    exact List.forall_mem_cons.mpr ⟨⟨plain, List.forall_mem_singleton.mpr test⟩, places⟩
  cases i with
  | none => exact loop path
  | some first =>
    refine List.forall_mem_cons.mpr ⟨⟨trivial, List.forall_mem_nil _⟩, List.forall_mem_append.mpr ⟨initializer first rfl _, ?_⟩⟩
    exact List.forall_mem_append.mpr ⟨loop _, List.forall_mem_nil _⟩

variable {tokens : List Token} {low high : Nat} {tree : Tree}

theorem Built.proper (built : Built tokens low tree high) : tree.Proper := by
  induction built with
  | widen _ _ _ ih => exact ih
  | literal | «variable» | this | super => exact List.forall_mem_singleton.mpr trivial
  | grouping _ ih | get _ _ ih | assign _ _ ih => exact List.forall_mem_cons.mpr ⟨trivial, ih⟩
  | unary _ sign _ ih => exact List.forall_mem_cons.mpr ⟨sign, ih⟩
  | operation _ chosen _ _ ih ih' =>
    rw [Tree.Proper, parts_of_node]
    exact List.forall_mem_cons.mpr ⟨tier_node_proper chosen _ _, List.forall_mem_append.mpr ⟨ih, ih'⟩⟩
  | @power l operator r _ _ _ _ raises _ _ ih ih' =>
    have own : Expr.Proper (.binary l operator r) := by simp [Expr.Proper, raises, Operator.binaries]
    exact List.forall_mem_cons.mpr ⟨own, List.forall_mem_append.mpr ⟨ih, ih'⟩⟩
  | conditional _ _ _ ih ih₁ ih₂ =>
    refine List.forall_mem_cons.mpr ⟨trivial, ?_⟩
    exact List.forall_mem_append.mpr ⟨ih, List.forall_mem_append.mpr ⟨ih₁, ih₂⟩⟩
  | call _ _ _ _ ih ih' => exact List.forall_mem_cons.mpr ⟨trivial, List.forall_mem_append.mpr ⟨ih, ih'⟩⟩
  | set _ _ _ ih ih' => exact List.forall_mem_cons.mpr ⟨trivial, List.forall_mem_append.mpr ⟨ih', ih⟩⟩
  | noExprs | noClause | noBranch | noStmts | noRoutines => nofun
  | moreExprs _ _ ih ih' => exact List.forall_mem_append.mpr ⟨ih, ih'⟩
  | someClause _ ih | someBranch _ ih =>
    rintro _ ⟨⟩
    exact ih
  | expression _ ih | print _ ih =>
    exact fun path => List.forall_mem_singleton.mpr ⟨trivial, List.forall_mem_singleton.mpr ih⟩
  | var _ _ ih | return_ _ _ _ ih =>
    intro path
    refine List.forall_mem_singleton.mpr ⟨trivial, fun e member => ih e (Option.mem_toList.mp member)⟩
  | block _ ih => exact fun path => List.forall_mem_cons.mpr ⟨⟨trivial, nofun⟩, ih _⟩
  | @if_ e s other _ _ _ _ _ _ plain _ others ih ih₁ ih₂ =>
    intro path
    have own : Place.Proper ⟨path, .if_ e s other⟩ := ⟨⟨plain, others⟩, List.forall_mem_singleton.mpr ih⟩
    cases other with
    | none => exact List.forall_mem_cons.mpr ⟨own, ih₁ path⟩
    | some s' =>
      exact List.forall_mem_cons.mpr ⟨own, List.forall_mem_append.mpr ⟨ih₁ path, ih₂ s' rfl path⟩⟩
  | while_ _ _ plain ih ih' =>
    exact fun path => List.forall_mem_cons.mpr ⟨⟨plain, List.forall_mem_singleton.mpr ih⟩, ih' path⟩
  | for_ _ _ _ _ plain ih ih₁ ih₂ ih₃ => exact proper_for ih ih₁ ih₂ ih₃ plain
  | @function d _ _ _ ih =>
    obtain ⟨name, parameters, body⟩ := d
    exact fun path => List.forall_mem_cons.mpr ⟨⟨trivial, nofun⟩, ih _⟩
  | class_ _ _ parent _ ih =>
    intro path
    have named (r) (member) := (parent r member).1.kind
    exact List.forall_mem_cons.mpr ⟨⟨named, nofun⟩, ih path _⟩
  | moreStmts _ _ ih ih' => exact fun path => List.forall_mem_append.mpr ⟨ih path, ih' path⟩
  | routine _ _ _ ih => exact ih
  | @moreRoutines d _ _ _ _ _ _ ih ih' =>
    obtain ⟨name, parameters, body⟩ := d
    exact fun path clause => List.forall_mem_append.mpr ⟨ih _, ih' path clause⟩

theorem readProgram_proper (tokens : List Token) :
    ∀ place ∈ stmtsPlaces [] (readProgram tokens).1, place.Proper := by
  obtain ⟨high, built⟩ := readProgram_built tokens
  exact built.proper []

theorem declared?_forLoop (i : Option Stmt) (e step : Option Expr) (s : Stmt) :
    (forLoop i e step s).declared? = none := by
  cases i <;> rfl

variable {n : Nat} {c after : Cursor} {s : Stmt}

/-- The clause of a `for` loop that runs once, read from this cursor on: nothing before a semicolon, or else a
variable declaration or an expression statement. -/
inductive FirstRead (n : Nat) (c : Cursor) : Option Stmt → Cursor → Prop
  | absent (semicolon : c.next.kind = .symbol .semicolon) : FirstRead n c none c.stepped
  | declared {s : Stmt} {after : Cursor} (keyword : c.next.kind = .keyword .var_)
    (read : varDeclaration n c.stepped = .ok s after) : FirstRead n c (some s) after
  | expression {s : Stmt} {after : Cursor} (semicolon : c.next.kind ≠ .symbol .semicolon)
    (keyword : c.next.kind ≠ .keyword .var_) (read : expressionStatement n c = .ok s after) :
    FirstRead n c (some s) after

/-- A clause of one expression, up to its closing symbol: it is absent where that symbol is next. -/
inductive ClauseRead (closing : Symbol) (n : Nat) (c : Cursor) : Option Expr → Cursor → Prop
  | absent (closes : sees (.symbol closing) c = .ok true c) : ClauseRead closing n c none c
  | present {e : Expr} {after : Cursor} (opens : sees (.symbol closing) c = .ok false c)
    (read : assignment n c = .ok e after) : ClauseRead closing n c (some e) after

/-- The clauses of a `for` loop and its body, read one after the other from behind the keyword. -/
inductive LoopRead (n : Nat) (c : Cursor) (i : Option Stmt) (e step : Option Expr) (body : Stmt)
    (after : Cursor) : Prop
  | parts {opened tested separated stepped parted closed : Cursor}
    (opening : expectSymbol .leftParen .afterFor c = .ok () opened)
    (first : FirstRead n opened i tested)
    (condition : ClauseRead .semicolon n tested e separated)
    (separator : expectSymbol .semicolon .afterLoopCondition separated = .ok () stepped)
    (increment : ClauseRead .rightParen n stepped step parted)
    (closing : expectSymbol .rightParen .afterForClauses parted = .ok () closed)
    (repeated : statement n closed = .ok body after)

theorem forInitializer_iff {i : Option Stmt} : forInitializer n c = .ok i after ↔ FirstRead n c i after := by
  rw [forInitializer_chosen]
  constructor
  · intro read
    split at read
    · next semicolon =>
      cases read
      exact .absent semicolon
    · next keyword =>
      obtain ⟨s, _, declaration, given⟩ := bind_eq_ok read
      cases given
      exact .declared keyword declaration
    · next semicolon keyword =>
      obtain ⟨s, _, statement, given⟩ := bind_eq_ok read
      cases given
      exact .expression semicolon keyword statement
  · rintro (semicolon | ⟨keyword, read⟩ | ⟨semicolon, keyword, read⟩)
    · rw [semicolon]
    · rw [keyword]
      exact bind_of_ok read
    · split
      · next here => exact absurd here semicolon
      · next here => exact absurd here keyword
      · exact bind_of_ok read

theorem expressionUnless_iff {closing : Symbol} {e : Option Expr} :
    expressionUnless closing n c = .ok e after ↔ ClauseRead closing n c e after := by
  constructor
  · intro read
    obtain ⟨seen, _, looked, read⟩ := bind_eq_ok read
    cases looked
    split at read
    · next closes =>
      cases read
      exact .absent (congrArg (EStateM.Result.ok · c) closes)
    · next opens =>
      obtain ⟨e, _, valued, given⟩ := bind_eq_ok read
      cases given
      exact .present (congrArg (EStateM.Result.ok · c) (Bool.eq_false_iff.mpr opens)) valued
  · rintro (closes | ⟨opens, read⟩)
    · exact bind_of_ok closes
    · exact (bind_of_ok opens).trans (bind_of_ok read)

/-- The rule for `for` gives the tree of what is read for its clauses and its body. -/
theorem forStatement_iff : forStatement (n + 1) c = .ok s after ↔
    ∃ i e step body, LoopRead n c i e step body after ∧ s = forLoop i e step body := by
  constructor
  · intro read
    obtain ⟨_, _, opening, read⟩ := bind_eq_ok read
    obtain ⟨i, _, first, read⟩ := bind_eq_ok read
    obtain ⟨e, _, condition, read⟩ := bind_eq_ok read
    obtain ⟨_, _, separator, read⟩ := bind_eq_ok read
    obtain ⟨step, _, increment, read⟩ := bind_eq_ok read
    obtain ⟨_, _, closing, read⟩ := bind_eq_ok read
    obtain ⟨body, _, repeated, given⟩ := bind_eq_ok read
    cases given
    exact ⟨i, e, step, body, .parts opening (forInitializer_iff.mp first) (expressionUnless_iff.mp condition)
      separator (expressionUnless_iff.mp increment) closing repeated, rfl⟩
  · rintro ⟨i, e, step, body, ⟨opening, first, condition, separator, increment, closing, repeated⟩, rfl⟩
    rw [forStatement, bind_of_ok opening, bind_of_ok (forInitializer_iff.mpr first),
      bind_of_ok (expressionUnless_iff.mpr condition), bind_of_ok separator,
      bind_of_ok (expressionUnless_iff.mpr increment), bind_of_ok closing, bind_of_ok repeated]
    rfl

/-- What the rule for `for` gives ends with the statement that is read for its body. -/
theorem forStatement_body (read : forStatement n c = .ok s after) : ∃ i e step body k middle,
    statement k middle = .ok body after ∧ s = forLoop i e step body := by
  cases n with
  | zero => cases read
  | succ n =>
    obtain ⟨i, e, step, body, parts, same⟩ := forStatement_iff.mp read
    cases parts with
    | parts _ _ _ _ _ _ repeated => exact ⟨i, e, step, body, n, _, repeated, same⟩

/-- Whatever the rule gives is no declaration. -/
def GivesPlain (rule : Rule Stmt) : Prop := ∀ c s after, rule c = .ok s after → s.declared? = none

theorem GivesPlain.bind {α : Type} {part : Rule α} {next : α → Rule Stmt} (rest : ∀ a, GivesPlain (next a)) :
    GivesPlain (part >>= next) := by
  intro c s after read
  obtain ⟨a, _, _, read⟩ := bind_eq_ok read
  exact rest a _ s after read

theorem GivesPlain.pure (plain : s.declared? = none) : GivesPlain (Pure.pure s) := by
  intro c s' after read
  cases read
  exact plain

theorem ifStatement_plain (n : Nat) : GivesPlain (ifStatement n) := by
  cases n with
  | zero =>
    intro c s after read
    cases read
  | succ n =>
    rw [ifStatement]
    exact .bind fun _ => .bind fun _ => .bind fun _ => .pure rfl

theorem whileStatement_plain (n : Nat) : GivesPlain (whileStatement n) := by
  cases n with
  | zero =>
    intro c s after read
    cases read
  | succ n =>
    rw [whileStatement]
    exact .bind fun _ => .bind fun _ => .pure rfl

/-- The rule for statements gives no declaration. -/
theorem statement_plain (read : statement n c = .ok s after) : s.declared? = none := by
  cases n with
  | zero => cases read
  | succ n =>
    rw [statement_chosen] at read
    split at read
    · obtain ⟨i, e, step, body, _, _, _, rfl⟩ := forStatement_body read
      exact declared?_forLoop i e step body
    · exact ifStatement_plain n _ s after read
    · exact whileStatement_plain n _ s after read
    · have plain : GivesPlain (returnStatement c.next n) := .bind fun _ => .bind fun _ => .pure rfl
      exact plain _ s after read
    · have plain : GivesPlain (Stmt.block <$> block n) := .bind fun _ => .pure rfl
      exact plain _ s after read
    · have plain : GivesPlain (printStatement n) := .bind fun _ => .bind fun _ => .pure rfl
      exact plain _ s after read
    · have plain : GivesPlain (expressionStatement n) := .bind fun _ => .bind fun _ => .pure rfl
      exact plain _ s after read

end Grammar
end LoxLang
