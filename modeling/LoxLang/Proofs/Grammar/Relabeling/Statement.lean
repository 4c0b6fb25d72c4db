import LoxLang.Proofs.Grammar.Reading
import LoxLang.Proofs.Grammar.Relabeling.Expression

/-! Reading statements and whole programs commutes with relabeling. -/
namespace LoxLang.Relabeling
open Grammar

variable {σ : Relabeling} {equal : Prop} {n n' : Nat}

theorem forLoop_relabeled (initializer : Option Stmt) (condition increment : Option Expr)
    (body : Stmt) :
    forLoop (initializer.map σ.stmt) (condition.map σ.expr) (increment.map σ.expr) (σ.stmt body) =
      σ.stmt (forLoop initializer condition increment body) := by
  cases initializer <;> cases condition <;> cases increment <;> rfl

theorem recover_relabeled (c : Cursor) : (σ.cursor c).recover = σ.cursor c.recover := by
  have boundary (skipped : Token) (ahead : List Token) :
      fromBoundary (σ.token skipped) (ahead.map σ.token) = (fromBoundary skipped ahead).map σ.token := by
    induction ahead generalizing skipped with
    | nil => rfl
    | cons t rest ih =>
      have same : (σ.token skipped).kind = skipped.kind := rfl
      have starts : startsStatement (σ.token t) = startsStatement t := rfl
      simp only [List.map_cons, fromBoundary, same, starts, ih]
      split <;> rfl
  obtain ⟨ahead, stop, nextId, reported⟩ := c
  cases ahead with
  | nil => rfl
  | cons t rest => simp only [Cursor.recover, cursor, List.map_cons, boundary]

theorem recover_behind (c : Cursor) (before : List SyntaxError) :
    (c.behind before).recover = c.recover.behind before := by
  obtain ⟨ahead, stop, nextId, reported⟩ := c
  cases ahead <;> rfl

theorem recovering_relabels {rule rule' : Rule Stmt} (rules : σ.Relabels equal σ.stmt rule rule') :
    σ.Relabels equal (Option.map σ.stmt) (recovering rule) (recovering rule') := by
  intro before c
  have found := rules before c
  cases ended : rule c with
  | ok s after =>
    exact .of_ok (recovering_of_ok ended) (recovering_of_ok (found.ok_of ended))
  | error e after =>
    cases e with
    | exhausted =>
      exact .of_error (recovering_of_exhausted ended)
        ((found.error_of ended).imp id recovering_of_exhausted)
    | rejected e =>
      apply Ends.of_ok (recovering_of_rejected ended)
      rcases found.error_of ended with without | same
      · exact nomatch without.1
      · have noted : ((σ.cursor after).behind before).noted (σ.fault e) =
            (σ.cursor (after.noted e)).behind before := by
          simp only [cursor, Cursor.behind, Cursor.noted, List.map_append, List.append_assoc]
          rfl
        rw [recovering_of_rejected same, noted, recover_behind, recover_relabeled]
        rfl

section Simple

variable (budgets : Budgets equal n n')
include budgets

theorem assignment_relabeled : σ.Relabels equal σ.expr (assignment n) (assignment n') :=
  (expressionsRelabel σ budgets).assignment

theorem expressionUnless_relabels (closing : Symbol) :
    σ.Relabels equal (Option.map σ.expr) (expressionUnless closing n)
      (expressionUnless closing n') := by
  apply (Relabels.sees _).bind
  intro seen
  cases seen with
  | true => exact .pure rfl
  | false => exact (assignment_relabeled budgets).bind fun _ => .pure rfl

theorem expressionStatement_relabels :
    σ.Relabels equal σ.stmt (expressionStatement n) (expressionStatement n') :=
  (assignment_relabeled budgets).bind fun _ => (Relabels.expectSymbol _ _).bind fun _ => .pure rfl

theorem printStatement_relabels : σ.Relabels equal σ.stmt (printStatement n) (printStatement n') :=
  (assignment_relabeled budgets).bind fun _ => (Relabels.expectSymbol _ _).bind fun _ => .pure rfl

theorem returnStatement_relabels (keyword : Token) :
    σ.Relabels equal σ.stmt (returnStatement keyword n) (returnStatement (σ.token keyword) n') :=
  (expressionUnless_relabels budgets _).bind fun _ =>
    (Relabels.expectSymbol _ _).bind fun _ => .pure rfl

theorem varDeclaration_relabels : σ.Relabels equal σ.stmt (varDeclaration n) (varDeclaration n') :=
  (Relabels.expectName _).bind fun _ => (Relabels.optionalAfter _ (assignment_relabeled budgets)).bind
    fun _ => (Relabels.expectSymbol _ _).bind fun _ => .pure rfl

theorem condition_relabels (opening closing : SyntaxError.Place) :
    σ.Relabels equal σ.expr (condition opening closing n) (condition opening closing n') :=
  (Relabels.expectSymbol _ _).bind fun _ => (assignment_relabeled budgets).bind fun _ =>
    (Relabels.expectSymbol _ _).bind fun _ => .pure rfl

theorem forInitializer_relabels :
    σ.Relabels equal (Option.map σ.stmt) (forInitializer n) (forInitializer n') := by
  apply Relabels.next.bind
  intro t
  rw [σ.token_kind]
  split
  · exact Relabels.advance.bind fun _ => .pure rfl
  · exact Relabels.advance.bind fun _ => (varDeclaration_relabels budgets).map fun _ => rfl
  · exact (expressionStatement_relabels budgets).map fun _ => rfl

theorem parameters_relabels (before : Nat) :
    σ.Relabels equal (List.map σ.token) (parameters n before) (parameters n' before) := by
  induction n generalizing n' before with
  | zero => exact .exhausted fun given => budgets.exact given ▸ rfl
  | succ n ih =>
    cases n' with
    | zero => exact absurd budgets.enough (Nat.not_succ_le_zero n)
    | succ n' =>
    apply (Relabels.boundArity _ _).bind
    intro _
    apply (Relabels.expectName _).bind
    intro first
    apply (Relabels.accept _).bind
    intro taken
    cases taken with
    | none => exact .pure rfl
    | some _ => exact (ih budgets.pred _).bind fun _ => .pure rfl

end Simple

variable (σ equal) in
/-- The rules of statements commute with relabeling, from the one budget to the other. -/
structure StatementsRelabel (n n' : Nat) : Prop where
  declaration :
    σ.Relabels equal (Option.map σ.stmt) (Grammar.declaration n) (Grammar.declaration n')
  classDeclaration : σ.Relabels equal σ.stmt (classDeclaration n) (classDeclaration n')
  methods : σ.Relabels equal σ.declarations (methods n) (methods n')
  routine : ∀ role, σ.Relabels equal σ.declaration (routine n role) (routine n' role)
  block : σ.Relabels equal σ.stmts (block n) (block n')
  blockDeclarations : σ.Relabels equal σ.stmts (blockDeclarations n) (blockDeclarations n')
  statement : σ.Relabels equal σ.stmt (statement n) (statement n')
  forStatement : σ.Relabels equal σ.stmt (forStatement n) (forStatement n')
  ifStatement : σ.Relabels equal σ.stmt (ifStatement n) (ifStatement n')
  whileStatement : σ.Relabels equal σ.stmt (whileStatement n) (whileStatement n')

section Steps

variable (all : σ.StatementsRelabel equal n n')
include all

theorem declaration_relabels (budgets : Budgets equal n n') :
    σ.Relabels equal (Option.map σ.stmt) (Grammar.declaration (n + 1))
      (Grammar.declaration (n' + 1)) := by
  apply recovering_relabels
  apply Relabels.next.bind
  intro t
  rw [σ.token_kind]
  split
  · exact Relabels.advance.bind fun _ => all.classDeclaration
  · exact Relabels.advance.bind fun _ => (all.routine _).map fun _ => rfl
  · exact Relabels.advance.bind fun _ => (varDeclaration_relabels budgets)
  · exact all.statement

theorem classDeclaration_relabels :
    σ.Relabels equal σ.stmt (classDeclaration (n + 1)) (classDeclaration (n' + 1)) := by
  have parent : σ.Relabels equal σ.reference (Grammar.reference =<< expectName .ofSuperclass)
      (Grammar.reference =<< expectName .ofSuperclass) :=
    (Relabels.expectName _).bind Relabels.reference
  exact (Relabels.expectName _).bind fun _ => (Relabels.optionalAfter _ parent).bind fun _ =>
    (Relabels.expectSymbol _ _).bind fun _ => all.methods.bind fun _ =>
      (Relabels.expectSymbol _ _).bind fun _ => .pure rfl

theorem methods_relabels :
    σ.Relabels equal σ.declarations (methods (n + 1)) (methods (n' + 1)) := by
  apply Relabels.atEnd.bind
  intro ended
  apply (Relabels.sees _).bind
  intro seen
  simp only [id_eq]
  split
  · exact .pure rfl
  · exact (all.routine _).bind fun _ => all.methods.bind fun _ => .pure rfl

theorem routine_relabels (budgets : Budgets equal n n') (role : Routine) :
    σ.Relabels equal σ.declaration (routine (n + 1) role) (routine (n' + 1) role) :=
  (Relabels.expectName _).bind fun _ => (Relabels.expectSymbol _ _).bind fun _ =>
    (Relabels.listUnless _ rfl (parameters_relabels budgets 0)).bind fun _ =>
      (Relabels.expectSymbol _ _).bind fun _ => (Relabels.expectSymbol _ _).bind fun _ =>
        all.block.bind fun _ => .pure rfl

theorem block_relabels : σ.Relabels equal σ.stmts (block (n + 1)) (block (n' + 1)) :=
  all.blockDeclarations.bind fun _ => (Relabels.expectSymbol _ _).bind fun _ => .pure rfl

theorem blockDeclarations_relabels :
    σ.Relabels equal σ.stmts (blockDeclarations (n + 1)) (blockDeclarations (n' + 1)) := by
  apply Relabels.atEnd.bind
  intro ended
  apply (Relabels.sees _).bind
  intro seen
  simp only [id_eq]
  split
  · exact .pure rfl
  · apply all.declaration.bind
    intro first
    apply all.blockDeclarations.bind
    intro rest
    cases first <;> exact .pure rfl

theorem statement_relabels (budgets : Budgets equal n n') :
    σ.Relabels equal σ.stmt (statement (n + 1)) (statement (n' + 1)) := by
  apply Relabels.next.bind
  intro t
  rw [σ.token_kind]
  split
  · exact Relabels.advance.bind fun _ => all.forStatement
  · exact Relabels.advance.bind fun _ => all.ifStatement
  · exact Relabels.advance.bind fun _ => all.whileStatement
  · exact Relabels.advance.bind fun _ => returnStatement_relabels budgets t
  · exact Relabels.advance.bind fun _ => all.block.map fun _ => rfl
  · exact Relabels.advance.bind fun _ => printStatement_relabels budgets
  · exact expressionStatement_relabels budgets

theorem forStatement_relabels (budgets : Budgets equal n n') :
    σ.Relabels equal σ.stmt (forStatement (n + 1)) (forStatement (n' + 1)) :=
  (Relabels.expectSymbol _ _).bind fun _ =>
    (forInitializer_relabels budgets).bind fun initializer =>
      (expressionUnless_relabels budgets _).bind fun condition =>
        (Relabels.expectSymbol _ _).bind fun _ =>
          (expressionUnless_relabels budgets _).bind fun increment =>
            (Relabels.expectSymbol _ _).bind fun _ => all.statement.bind fun body =>
              .pure (forLoop_relabeled initializer condition increment body)

theorem ifStatement_relabels (budgets : Budgets equal n n') :
    σ.Relabels equal σ.stmt (ifStatement (n + 1)) (ifStatement (n' + 1)) :=
  (condition_relabels budgets _ _).bind fun _ => all.statement.bind fun _ =>
    (Relabels.optionalAfter _ all.statement).bind fun _ => .pure (if_eq σ _ _ _).symm

theorem whileStatement_relabels (budgets : Budgets equal n n') :
    σ.Relabels equal σ.stmt (whileStatement (n + 1)) (whileStatement (n' + 1)) :=
  (condition_relabels budgets _ _).bind fun _ => all.statement.bind fun _ => .pure rfl

end Steps

/-- Whatever the budget, the rules of statements commute with relabeling, to a larger one as well. -/
theorem statementsRelabel (σ : Relabeling) (budgets : Budgets equal n n') :
    σ.StatementsRelabel equal n n' := by
  induction n generalizing n' with
  | zero =>
    constructor <;> intros <;> exact .exhausted fun given => budgets.exact given ▸ rfl
  | succ n ih =>
    cases n' with
    | zero => exact absurd budgets.enough (Nat.not_succ_le_zero n)
    | succ n' =>
    have budgets := budgets.pred
    have inner := ih budgets
    exact ⟨declaration_relabels inner budgets, classDeclaration_relabels inner,
      methods_relabels inner, routine_relabels inner budgets, block_relabels inner,
      blockDeclarations_relabels inner, statement_relabels inner budgets,
      forStatement_relabels inner budgets, ifStatement_relabels inner budgets,
      whileStatement_relabels inner budgets⟩

/-- Reading the rest of a program commutes with relabeling. -/
theorem program_relabels (budgets : Budgets equal n n') :
    σ.Relabels equal σ.stmts (program n) (program n') := by
  induction n generalizing n' with
  | zero => exact .exhausted fun given => budgets.exact given ▸ rfl
  | succ n ih =>
    cases n' with
    | zero => exact absurd budgets.enough (Nat.not_succ_le_zero n)
    | succ n' =>
    have budgets := budgets.pred
    apply Relabels.atEnd.bind
    intro ended
    simp only [id_eq]
    split
    · exact .pure rfl
    · apply (statementsRelabel σ budgets).declaration.bind
      intro first
      apply (ih budgets).bind
      intro rest
      cases first <;> exact .pure rfl

/-- Reading a program with the same budget on other lines. -/
theorem program_relabeled (n : Nat) (c : Cursor) :
    program n (σ.cursor c) = σ.result σ.stmts (program n c) := by
  have relabels : σ.Relabels True σ.stmts (program n) (program n) :=
    program_relabels ⟨Nat.le_refl n, fun _ => rfl⟩
  have found := relabels [] c
  cases ended : program n c with
  | ok body after => exact found.ok_of ended
  | error e after => exact (found.error_of ended).resolve_left fun without => without.2 trivial

end LoxLang.Relabeling
