import LoxLang.Proofs.Grammar.Completeness.Reaching

/-! Which rule reads a statement or a declaration. The next token alone chooses it. Most begin with a
word or a brace of their own, and the rule goes on behind it. -/
namespace LoxLang.Grammar
open Cursor

variable {n : Nat} {c : Cursor}

/-- The next token chooses what a statement is read as. -/
theorem statement_chosen (n : Nat) (c : Cursor) : statement (n + 1) c =
    match c.next.kind with
    | .keyword .for_ => forStatement n c.stepped
    | .keyword .if_ => ifStatement n c.stepped
    | .keyword .while_ => whileStatement n c.stepped
    | .keyword .return_ => returnStatement c.next n c.stepped
    | .symbol .leftBrace => (Stmt.block <$> block n) c.stepped
    | .keyword .print_ => printStatement n c.stepped
    | _ => expressionStatement n c := by
  have seen : next c = .ok c.next c := rfl
  rw [statement, bind_of_ok seen]
  generalize c.next.kind = kind
  cases kind with
  | keyword word => cases word <;> rfl
  | symbol s => cases s <;> rfl
  | _ => rfl

/-- The next token chooses what the first clause of a `for` loop is read as. -/
theorem forInitializer_chosen (n : Nat) (c : Cursor) : forInitializer n c =
    match c.next.kind with
    | .symbol .semicolon => .ok none c.stepped
    | .keyword .var_ => (some <$> varDeclaration n) c.stepped
    | _ => (some <$> expressionStatement n) c := by
  have seen : next c = .ok c.next c := rfl
  rw [forInitializer, bind_of_ok seen]
  generalize c.next.kind = kind
  cases kind with
  | keyword word => cases word <;> rfl
  | symbol s => cases s <;> rfl
  | _ => rfl

/-- A statement that begins with this kind of token is read by the rule from behind the token. -/
def Chosen (kind : Token.Kind) (inner : Token → Nat → Rule Stmt) : Prop :=
  ∀ n c, c.next.kind = kind → statement (n + 1) c = inner c.next n c.stepped

theorem chosen_for : Chosen (.keyword .for_) fun _ => forStatement := by
  intro n c found
  rw [statement_chosen, found]

theorem chosen_if : Chosen (.keyword .if_) fun _ => ifStatement := by
  intro n c found
  rw [statement_chosen, found]

theorem chosen_while : Chosen (.keyword .while_) fun _ => whileStatement := by
  intro n c found
  rw [statement_chosen, found]

theorem chosen_return : Chosen (.keyword .return_) returnStatement := by
  intro n c found
  rw [statement_chosen, found]

theorem chosen_print : Chosen (.keyword .print_) fun _ => printStatement := by
  intro n c found
  rw [statement_chosen, found]

theorem chosen_block : Chosen (.symbol .leftBrace) fun _ n => Stmt.block <$> block n := by
  intro n c found
  rw [statement_chosen, found]

theorem statement_of_expression (opens : opensExpression c.next.kind = true) :
    statement (n + 1) c = expressionStatement n c := by
  rw [statement_chosen]
  split
  iterate 6
    next found => simp [found, opensExpression, opensPrimary] at opens
  rfl

theorem recovering_congr {rule rule' : Rule Stmt} {c' : Cursor} (same : rule c = rule' c') :
    recovering rule c = recovering rule' c' := by simp only [recovering, same]

/-- The next token chooses what a declaration is read as. -/
theorem declaration_chosen (n : Nat) (c : Cursor) : declaration (n + 1) c =
    match c.next.kind with
    | .keyword .class_ => recovering (classDeclaration n) c.stepped
    | .keyword .fun_ => recovering (.function <$> routine n .function) c.stepped
    | .keyword .var_ => recovering (varDeclaration n) c.stepped
    | _ => recovering (statement n) c := by
  have seen : next c = .ok c.next c := rfl
  cases kind : c.next.kind with
  | keyword word =>
    cases word <;> exact recovering_congr (by rw [bind_of_ok seen, kind] <;> rfl)
  | _ => exact recovering_congr (by rw [bind_of_ok seen, kind])

theorem declaration_of_statement (opens : opensStatement c.next.kind = true) :
    declaration (n + 1) c = recovering (statement n) c := by
  rw [declaration_chosen]
  split
  iterate 3
    next found => simp [found, opensStatement, opensExpression, opensPrimary] at opens
  rfl

end LoxLang.Grammar
