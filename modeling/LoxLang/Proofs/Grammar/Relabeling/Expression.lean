import LoxLang.Proofs.Grammar.Relabeling.Rule

/-! Reading an expression commutes with relabeling. -/
namespace LoxLang.Relabeling
open Grammar

variable (σ : Relabeling) (equal : Prop)

/-- The rules of expressions commute with relabeling, from the one budget to the other. -/
structure ExpressionsRelabel (n n' : Nat) : Prop where
  assignment : σ.Relabels equal σ.expr (assignment n) (assignment n')
  conditional : σ.Relabels equal σ.expr (conditional n) (conditional n')
  binary : ∀ tier, σ.Relabels equal σ.expr (binary n tier) (binary n' tier)
  binaryRest : ∀ tier left,
    σ.Relabels equal σ.expr (binaryRest n tier left) (binaryRest n' tier (σ.expr left))
  operand : ∀ tier, σ.Relabels equal σ.expr (operand n tier) (operand n' tier)
  power : σ.Relabels equal σ.expr (power n) (power n')
  unary : σ.Relabels equal σ.expr (unary n) (unary n')
  call : σ.Relabels equal σ.expr (call n) (call n')
  callRest : ∀ callee, σ.Relabels equal σ.expr (callRest n callee) (callRest n' (σ.expr callee))
  arguments : ∀ before, σ.Relabels equal σ.exprs (arguments n before) (arguments n' before)
  primary : σ.Relabels equal σ.expr (primary n) (primary n')

variable {σ equal}

theorem operator_relabels (tier : Tier) :
    σ.Relabels equal (Option.map σ.token) tier.operator? tier.operator? := by
  apply Relabels.next.bind
  intro t
  rw [σ.token_kind]
  split
  · exact Relabels.advance.bind fun _ => .pure rfl
  · exact .pure rfl

theorem node_relabeled (tier : Tier) (left : Expr) (operator : Token) (right : Expr) :
    tier.node (σ.expr left) (σ.token operator) (σ.expr right) =
      σ.expr (tier.node left operator right) := by
  cases tier <;> rfl

theorem assignTo_relabels (target : Expr) (equals : Token) (value : Expr) :
    σ.Relabels equal σ.expr (assignTo target equals value)
      (assignTo (σ.expr target) (σ.token equals) (σ.expr value)) := by
  cases target
  case «variable» r => exact (Relabels.reference r.name).bind fun _ => .pure rfl
  case get object name => exact .pure rfl
  all_goals exact (Relabels.report _ equals).bind fun _ => .pure rfl

theorem leftless_relabels {right right' : Rule Expr} (operator : Token)
    (rights : σ.Relabels equal σ.expr right right') :
    σ.Relabels equal σ.expr (leftless operator right) (leftless (σ.token operator) right') :=
  Relabels.advance.bind fun _ => rights.bind fun _ => .reject _ operator

section Steps

variable {n n' : Nat} (all : σ.ExpressionsRelabel equal n n')
include all

theorem assignment_relabels :
    σ.Relabels equal σ.expr (assignment (n + 1)) (assignment (n' + 1)) := by
  apply all.conditional.bind
  intro target
  apply (Relabels.accept _).bind
  intro taken
  cases taken with
  | none => exact .pure rfl
  | some equals => exact all.assignment.bind fun value => assignTo_relabels target equals value

theorem conditional_relabels :
    σ.Relabels equal σ.expr (conditional (n + 1)) (conditional (n' + 1)) := by
  apply (all.binary .or_).bind
  intro condition
  apply (Relabels.accept _).bind
  intro taken
  cases taken with
  | none => exact .pure rfl
  | some _ =>
    exact all.assignment.bind fun _ => (Relabels.expectSymbol _ _).bind fun _ =>
      all.conditional.bind fun _ => .pure rfl

theorem binary_relabels (tier : Tier) :
    σ.Relabels equal σ.expr (binary (n + 1) tier) (binary (n' + 1) tier) :=
  (all.operand tier).bind fun left => all.binaryRest tier left

theorem binaryRest_relabels (tier : Tier) (left : Expr) :
    σ.Relabels equal σ.expr (binaryRest (n + 1) tier left)
      (binaryRest (n' + 1) tier (σ.expr left)) := by
  apply (operator_relabels tier).bind
  intro taken
  cases taken with
  | none => exact .pure rfl
  | some operator =>
    apply (all.operand tier).bind
    intro right
    rw [node_relabeled]
    exact all.binaryRest tier _

theorem operand_relabels (tier : Tier) :
    σ.Relabels equal σ.expr (operand (n + 1) tier) (operand (n' + 1) tier) := by
  unfold operand
  split
  · exact all.binary _
  · exact all.power

theorem power_relabels : σ.Relabels equal σ.expr (power (n + 1)) (power (n' + 1)) := by
  apply all.unary.bind
  intro base
  apply (Relabels.accept _).bind
  intro taken
  cases taken with
  | none => exact .pure rfl
  | some operator => exact all.power.bind fun _ => .pure rfl

theorem unary_relabels : σ.Relabels equal σ.expr (unary (n + 1)) (unary (n' + 1)) := by
  apply Relabels.next.bind
  intro t
  rw [σ.token_kind]
  split
  · exact Relabels.advance.bind fun _ => all.unary.bind fun _ => .pure rfl
  · exact Relabels.advance.bind fun _ => all.unary.bind fun _ => .pure rfl
  · exact all.call

theorem call_relabels : σ.Relabels equal σ.expr (call (n + 1)) (call (n' + 1)) :=
  all.primary.bind fun callee => all.callRest callee

theorem callRest_relabels (callee : Expr) :
    σ.Relabels equal σ.expr (callRest (n + 1) callee) (callRest (n' + 1) (σ.expr callee)) := by
  apply Relabels.next.bind
  intro t
  rw [σ.token_kind]
  split
  · exact Relabels.advance.bind fun _ =>
      (Relabels.listUnless .rightParen rfl (all.arguments 0)).bind fun _ =>
        (Relabels.expect _ _).bind fun _ => all.callRest _
  · exact Relabels.advance.bind fun _ => (Relabels.expectName _).bind fun _ => all.callRest _
  · exact .pure rfl

theorem arguments_relabels (before : Nat) :
    σ.Relabels equal σ.exprs (arguments (n + 1) before) (arguments (n' + 1) before) := by
  apply (Relabels.boundArity _ _).bind
  intro _
  apply all.assignment.bind
  intro first
  apply (Relabels.accept _).bind
  intro taken
  cases taken with
  | none => exact .pure rfl
  | some _ => exact (all.arguments _).bind fun _ => .pure rfl

theorem primary_relabels : σ.Relabels equal σ.expr (primary (n + 1)) (primary (n' + 1)) := by
  have literal (l : Literal) : σ.Relabels equal σ.expr (do advance; return .literal l)
      (do advance; return .literal l) := Relabels.advance.bind fun _ => .pure rfl
  apply Relabels.next.bind
  intro t
  rw [σ.token_kind]
  split
  · exact literal _
  · exact literal _
  · exact literal _
  · exact literal _
  · exact literal _
  · exact Relabels.advance.bind fun _ => (Relabels.reference t).bind fun _ => .pure rfl
  · exact Relabels.advance.bind fun _ => (Relabels.expectSymbol _ _).bind fun _ =>
      (Relabels.expectName _).bind fun _ => (Relabels.reference t).bind fun _ => .pure rfl
  · exact Relabels.advance.bind fun _ => (Relabels.reference t).bind fun _ => .pure rfl
  · exact Relabels.advance.bind fun _ => all.assignment.bind fun _ =>
      (Relabels.expectSymbol _ _).bind fun _ => .pure rfl
  -- an operator with nothing on its left, tier by tier
  iterate 10
    exact leftless_relabels t (all.binary _)
  · exact leftless_relabels t all.power
  · exact .reject _ t

end Steps

/-- Whatever the budget, the rules of expressions commute with relabeling, to a larger one as well. -/
theorem expressionsRelabel (σ : Relabeling) {n n' : Nat} (budgets : Budgets equal n n') :
    σ.ExpressionsRelabel equal n n' := by
  induction n generalizing n' with
  | zero =>
    constructor <;> intros <;> exact .exhausted fun given => budgets.exact given ▸ rfl
  | succ n ih =>
    cases n' with
    | zero => exact absurd budgets.enough (Nat.not_succ_le_zero n)
    | succ n' =>
    have inner := ih budgets.pred
    exact ⟨assignment_relabels inner, conditional_relabels inner, binary_relabels inner,
      binaryRest_relabels inner, operand_relabels inner, power_relabels inner,
      unary_relabels inner, call_relabels inner, callRest_relabels inner,
      arguments_relabels inner, primary_relabels inner⟩

end LoxLang.Relabeling
