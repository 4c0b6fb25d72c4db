import LoxLang.Proofs.Grammar.Extension.Rule

/-! How far the rules of expressions look. An expression may go on with any token that follows, so one
is found again where more tokens follow only if a token was left behind it. -/
namespace LoxLang.Grammar

variable (more : List Token) (stop : Token)

/-- What the rules of expressions give with the one budget they give with the other one where more
tokens follow. -/
structure ExpressionsExtend (n n' : Nat) : Prop where
  assignment : Extends more stop False (assignment n) (assignment n')
  conditional : Extends more stop False (conditional n) (conditional n')
  binary : ∀ tier, Extends more stop False (binary n tier) (binary n' tier)
  binaryRest : ∀ tier left,
    Extends more stop False (binaryRest n tier left) (binaryRest n' tier left)
  operand : ∀ tier, Extends more stop False (operand n tier) (operand n' tier)
  power : Extends more stop False (power n) (power n')
  unary : Extends more stop False (unary n) (unary n')
  call : Extends more stop False (call n) (call n')
  callRest : ∀ callee, Extends more stop False (callRest n callee) (callRest n' callee)
  arguments : ∀ before, Extends more stop False (arguments n before) (arguments n' before)
  primary : Extends more stop False (primary n) (primary n')

variable {more stop}

namespace Extends

theorem operator (tier : Tier) : Extends more stop False tier.operator? tier.operator? := by
  apply next.bind
  intro t
  split
  · exact advance.bind fun _ => .pure _
  · exact .pure none

theorem assignTo (target : Expr) (equals : Token) (value : Expr) :
    Extends more stop False (assignTo target equals value) (assignTo target equals value) := by
  cases target
  case «variable» r => exact (reference r.name).bind fun _ => .pure _
  case get object name => exact .pure _
  all_goals exact (report _ equals).bind fun _ => .pure value

theorem leftless {right right' : Rule Expr} (operator : Token)
    (rights : Extends more stop False right right') :
    Extends more stop False (leftless operator right) (leftless operator right') :=
  advance.bind fun _ => rights.bind fun _ => .reject _ operator

end Extends

section Steps

variable {n n' : Nat} (all : ExpressionsExtend more stop n n')
include all

theorem assignment_extends :
    Extends more stop False (assignment (n + 1)) (assignment (n' + 1)) := by
  apply all.conditional.bind
  intro target
  apply (Extends.accept nofun).bind
  intro taken
  cases taken with
  | none => exact .pure target
  | some equals => exact all.assignment.bind fun value => .assignTo target equals value

theorem conditional_extends :
    Extends more stop False (conditional (n + 1)) (conditional (n' + 1)) := by
  apply (all.binary .or_).bind
  intro condition
  apply (Extends.accept nofun).bind
  intro taken
  cases taken with
  | none => exact .pure condition
  | some _ =>
    exact all.assignment.bind fun _ => (Takes.expectSymbol _ _).extends_.bind fun _ =>
      all.conditional.bind fun _ => .pure _

theorem binary_extends (tier : Tier) :
    Extends more stop False (binary (n + 1) tier) (binary (n' + 1) tier) :=
  (all.operand tier).bind fun left => all.binaryRest tier left

theorem binaryRest_extends (tier : Tier) (left : Expr) :
    Extends more stop False (binaryRest (n + 1) tier left) (binaryRest (n' + 1) tier left) := by
  apply (Extends.operator tier).bind
  intro taken
  cases taken with
  | none => exact .pure left
  | some operator => exact (all.operand tier).bind fun _ => all.binaryRest tier _

theorem operand_extends (tier : Tier) :
    Extends more stop False (operand (n + 1) tier) (operand (n' + 1) tier) := by
  unfold operand
  split
  · exact all.binary _
  · exact all.power

theorem power_extends : Extends more stop False (power (n + 1)) (power (n' + 1)) := by
  apply all.unary.bind
  intro base
  apply (Extends.accept nofun).bind
  intro taken
  cases taken with
  | none => exact .pure base
  | some operator => exact all.power.bind fun _ => .pure _

theorem unary_extends : Extends more stop False (unary (n + 1)) (unary (n' + 1)) := by
  apply Extends.next.bind
  intro t
  split
  · exact Extends.advance.bind fun _ => all.unary.bind fun _ => .pure _
  · exact Extends.advance.bind fun _ => all.unary.bind fun _ => .pure _
  · exact all.call

theorem call_extends : Extends more stop False (call (n + 1)) (call (n' + 1)) :=
  all.primary.bind fun callee => all.callRest callee

theorem callRest_extends (callee : Expr) :
    Extends more stop False (callRest (n + 1) callee) (callRest (n' + 1) callee) := by
  apply Extends.next.bind
  intro t
  split
  · exact Extends.advance.bind fun _ => (Extends.listUnless _ (all.arguments 0)).bind fun _ =>
      (Takes.expect _ _).extends_.bind fun _ => all.callRest _
  · exact Extends.advance.bind fun _ => (Takes.expectName _).extends_.bind fun _ => all.callRest _
  · exact .pure callee

theorem arguments_extends (before : Nat) :
    Extends more stop False (arguments (n + 1) before) (arguments (n' + 1) before) := by
  apply (Extends.boundArity _ _).bind
  intro _
  apply all.assignment.bind
  intro first
  apply (Extends.accept nofun).bind
  intro taken
  cases taken with
  | none => exact .pure [first]
  | some _ => exact (all.arguments _).bind fun _ => .pure _

theorem primary_extends : Extends more stop False (primary (n + 1)) (primary (n' + 1)) := by
  have literal (e : Expr) : Extends more stop False (do advance; return e)
      (do advance; return e) := Extends.advance.bind fun _ => .pure e
  apply Extends.next.bind
  intro t
  split
  · exact literal _
  · exact literal _
  · exact literal _
  · exact literal _
  · exact literal _
  · exact Extends.advance.bind fun _ => (Extends.reference t).bind fun _ => .pure _
  · exact Extends.advance.bind fun _ => (Takes.expectSymbol _ _).extends_.bind fun _ =>
      (Takes.expectName _).extends_.bind fun _ => (Extends.reference t).bind fun _ => .pure _
  · exact Extends.advance.bind fun _ => (Extends.reference t).bind fun _ => .pure _
  · exact Extends.advance.bind fun _ => all.assignment.bind fun _ =>
      (Takes.expectSymbol _ _).extends_.bind fun _ => .pure _
  -- an operator with nothing on its left, tier by tier
  iterate 10
    exact .leftless t (all.binary _)
  · exact .leftless t all.power
  · exact .reject _ t

end Steps

/-- The rules of expressions with a budget, and those with one that is at least as large. -/
theorem expressionsExtend (more : List Token) (stop : Token) {n n' : Nat} (enough : n ≤ n') :
    ExpressionsExtend more stop n n' := by
  induction n generalizing n' with
  | zero => constructor <;> intros <;> exact .exhausted
  | succ n ih =>
    cases n' with
    | zero => exact absurd enough (Nat.not_succ_le_zero n)
    | succ n' =>
    have inner := ih (Nat.le_of_succ_le_succ enough)
    exact ⟨assignment_extends inner, conditional_extends inner, binary_extends inner,
      binaryRest_extends inner, operand_extends inner, power_extends inner, unary_extends inner,
      call_extends inner, callRest_extends inner, arguments_extends inner, primary_extends inner⟩

end LoxLang.Grammar
