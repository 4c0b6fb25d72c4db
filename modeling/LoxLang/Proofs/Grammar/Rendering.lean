import LoxLang.Proofs.Grammar.Opening
import Mathlib.Data.List.Forall2

/-! How an expression is written. A tree has one mark for each token of its text, in order: where a node
keeps the token, the mark is that token, and elsewhere it is a kind. A tree nests when no operand is looser
than its place allows, so that its text needs no parentheses but those of its groupings. -/
namespace LoxLang.Grammar

/-- The kind of the token of a literal. -/
def literalKind : Literal → Token.Kind
  | .number value => .number value
  | .string text => .string text
  | .boolean true => .keyword .true_
  | .boolean false => .keyword .false_
  | .nil => .keyword .nil_

/-- What stands for one token of a text. -/
inductive Mark where
  /-- A token of this kind, which no node keeps. -/
  | plain (kind : Token.Kind)
  /-- The token that a node keeps, which is to be of this kind. -/
  | kept (kind : Token.Kind) (t : Token)

def Mark.kind : Mark → Token.Kind
  | .plain kind => kind
  | .kept kind _ => kind

def Mark.Fits : Mark → Token → Prop
  | .plain kind, t => t.kind = kind
  | .kept kind own, t => t = own ∧ t.kind = kind

theorem Mark.Fits.kind {m : Mark} {t : Token} (fits : m.Fits t) : t.kind = m.kind := by
  cases m with
  | plain => exact fits
  | kept => exact fits.2

end Grammar

open Grammar

mutual

/-- The text of an expression. -/
def Expr.marks : Expr → List Mark
  | .literal l => [.plain (literalKind l)]
  | .grouping inner => .plain (.symbol .leftParen) :: (inner.marks ++ [.plain (.symbol .rightParen)])
  | .unary operator right => .kept operator.kind operator :: right.marks
  | .binary left operator right => left.marks ++ .kept operator.kind operator :: right.marks
  | .logical left operator right => left.marks ++ .kept operator.kind operator :: right.marks
  | .conditional condition thenBranch elseBranch =>
    condition.marks ++ .plain (.symbol .question) ::
      (thenBranch.marks ++ .plain (.symbol .colon) :: elseBranch.marks)
  | .variable r => [.kept .identifier r.name]
  | .assign r value => .kept .identifier r.name :: .plain (.symbol .equal) :: value.marks
  | .call callee paren arguments =>
    callee.marks ++ .plain (.symbol .leftParen) ::
      (Expr.listMarks arguments ++ [.kept (.symbol .rightParen) paren])
  | .get object name => object.marks ++ [.plain (.symbol .dot), .kept .identifier name]
  | .set object name value =>
    object.marks ++ .plain (.symbol .dot) :: .kept .identifier name :: .plain (.symbol .equal) :: value.marks
  | .this keyword => [.kept (.keyword .this_) keyword.name]
  | .super keyword method =>
    [.kept (.keyword .super_) keyword.name, .plain (.symbol .dot), .kept .identifier method]

/-- The text of the arguments of a call, with commas between them. -/
def Expr.listMarks : List Expr → List Mark
  | [] => []
  | [e] => e.marks
  | e :: rest => e.marks ++ .plain (.symbol .comma) :: Expr.listMarks rest

end

mutual

/-- The expression with the identities of its references left out. -/
def Expr.bare : Expr → Expr
  | .literal l => .literal l
  | .grouping inner => .grouping inner.bare
  | .unary operator right => .unary operator right.bare
  | .binary left operator right => .binary left.bare operator right.bare
  | .logical left operator right => .logical left.bare operator right.bare
  | .conditional condition thenBranch elseBranch =>
    .conditional condition.bare thenBranch.bare elseBranch.bare
  | .variable r => .variable ⟨0, r.name⟩
  | .assign r value => .assign ⟨0, r.name⟩ value.bare
  | .call callee paren arguments => .call callee.bare paren (Expr.bareList arguments)
  | .get object name => .get object.bare name
  | .set object name value => .set object.bare name value.bare
  | .this keyword => .this ⟨0, keyword.name⟩
  | .super keyword method => .super ⟨0, keyword.name⟩ method

def Expr.bareList : List Expr → List Expr
  | [] => []
  | e :: rest => e.bare :: Expr.bareList rest

end

namespace Grammar

/-- The rungs of the ladder of precedence, from the loosest. -/
inductive Rung where
  | assignment | conditional | tier (t : Tier) | power | unary | call | primary

def Rung.rank : Rung → Nat
  | .assignment => 1
  | .conditional => 2
  | .tier t => t.rank
  | .power => 9
  | .unary => 10
  | .call => 11
  | .primary => 12

end Grammar

/-- The rung on which the outermost operator of an expression stands. -/
def Expr.rung : Expr → Rung
  | .assign _ _ | .set _ _ _ => .assignment
  | .conditional _ _ _ => .conditional
  | .binary _ operator _ | .logical _ operator _ =>
    ((Tier.ofKind? operator.kind).map Rung.tier).getD .power
  | .unary _ _ => .unary
  | .call _ _ _ | .get _ _ => .call
  | .literal _ | .grouping _ | .variable _ | .this _ | .super _ _ => .primary

def Expr.rank (e : Expr) : Nat := e.rung.rank

namespace Grammar

/-- The next tighter rung; there is none above the primaries. -/
def Rung.tighter : Rung → Rung
  | .assignment => .conditional
  | .conditional => .tier .or_
  | .tier t => (t.tighter?.map Rung.tier).getD .power
  | .power => .unary
  | .unary => .call
  | .call | .primary => .primary

theorem Rung.assignment_le (k : Rung) : Rung.assignment.rank ≤ k.rank := by
  cases k with
  | tier t => cases t <;> decide
  | _ => decide

theorem Rung.rank_le (k : Rung) : k.rank ≤ 12 := by
  cases k with
  | tier t => cases t <;> decide
  | _ => decide

theorem Rung.rank_injective {k j : Rung} (same : k.rank = j.rank) : k = j := by
  cases k with
  | tier t =>
    cases j with
    | tier t' => cases t <;> cases t' <;> first | rfl | cases same
    | _ => cases t <;> cases same
  | _ =>
    cases j with
    | tier t' => cases t' <;> cases same
    | _ => first | rfl | cases same

theorem Rung.rank_tighter {k : Rung} (below : k.rank < 12) : k.tighter.rank = k.rank + 1 := by
  cases k with
  | tier t => cases t <;> rfl
  | primary => exact absurd below (by decide)
  | _ => rfl

/-- In the expression every operand stands on a rung that is tight enough for its place. An operand on the
side to which an operator associates may stand on the rung of the operator itself. -/
inductive Nests : Expr → Prop
  | literal {l} : Nests (.literal l)
  | grouping {e} (inner : Nests e) : Nests (.grouping e)
  | variable {r} : Nests (.variable r)
  | this {keyword} : Nests (.this keyword)
  | super {keyword method} : Nests (.super keyword method)
  | call {f paren es} (callee : Nests f) (tight : Rung.call.rank ≤ f.rank)
    (arguments : ∀ e ∈ es, Nests e) : Nests (.call f paren es)
  | get {o name} (object : Nests o) (tight : Rung.call.rank ≤ o.rank) : Nests (.get o name)
  | unary {operator e} (sign : operator.kind ∈ [.symbol .bang, .symbol .minus]) (right : Nests e)
    (tight : Rung.unary.rank ≤ e.rank) : Nests (.unary operator e)
  | power {l operator r} (raises : operator.kind = .symbol .starStar) (left : Nests l)
    (tighter : Rung.power.rank < l.rank) (right : Nests r) (tight : Rung.power.rank ≤ r.rank) :
    Nests (.binary l operator r)
  | operation {t : Tier} {l operator r} (chosen : Tier.ofKind? operator.kind = some t) (left : Nests l)
    (tight : t.rank ≤ l.rank) (right : Nests r) (tighter : t.rank < r.rank) :
    Nests (t.node l operator r)
  | conditional {e t f} (condition : Nests e) (tighter : Rung.conditional.rank < e.rank)
    (thenBranch : Nests t) (elseBranch : Nests f) (tight : Rung.conditional.rank ≤ f.rank) :
    Nests (.conditional e t f)
  | assign {r e} (value : Nests e) : Nests (.assign r e)
  | set {o name e} (object : Nests o) (tight : Rung.call.rank ≤ o.rank) (value : Nests e) :
    Nests (.set o name e)

/-- The tokens before `rest` are written as these marks. -/
def Span (marks : List Mark) (start rest : List Token) : Prop :=
  ∃ own, start = own ++ rest ∧ List.Forall₂ Mark.Fits marks own

section Span

variable {m : Mark} {ms ms' : List Mark} {start rest : List Token}

@[simp]
theorem span_nil : Span [] start rest ↔ start = rest := by simp [Span]

@[simp]
theorem span_cons : Span (m :: ms) start rest ↔
    ∃ t middle, start = t :: middle ∧ m.Fits t ∧ Span ms middle rest := by
  constructor
  · rintro ⟨_, rfl, fits⟩
    obtain ⟨t, own, here, others, rfl⟩ := List.forall₂_cons_left_iff.mp fits
    exact ⟨t, own ++ rest, rfl, here, own, rfl, others⟩
  · rintro ⟨t, _, rfl, here, own, rfl, others⟩
    exact ⟨t :: own, rfl, .cons here others⟩

@[simp]
theorem span_append : Span (ms ++ ms') start rest ↔ ∃ middle, Span ms start middle ∧ Span ms' middle rest := by
  induction ms generalizing start with
  | nil => simp
  | cons m ms ih => simp only [List.cons_append, span_cons, ih]; grind

end Span

/-- An operator of a tier between its operands. -/
theorem node_marks (t : Tier) (l : Expr) (operator : Token) (r : Expr) :
    (t.node l operator r).marks = l.marks ++ .kept operator.kind operator :: r.marks := by
  cases t <;> rfl

theorem node_bare (t : Tier) (l : Expr) (operator : Token) (r : Expr) :
    (t.node l operator r).bare = t.node l.bare operator r.bare := by
  cases t <;> rfl

theorem node_rank {t : Tier} {operator : Token} (chosen : Tier.ofKind? operator.kind = some t) (l r : Expr) :
    (t.node l operator r).rank = t.rank := by
  cases t <;> simp [Tier.node, Expr.rank, Expr.rung, chosen, Rung.rank]

theorem listMarks_cons (e : Expr) {rest : List Expr} (more : rest ≠ []) :
    Expr.listMarks (e :: rest) = e.marks ++ .plain (.symbol .comma) :: Expr.listMarks rest := by
  obtain ⟨e', rest, rfl⟩ := List.exists_cons_of_ne_nil more
  rfl

/-- The tokens before `rest` are the text of an expression that nests and is as tight as this rung. -/
structure Rendered (k : Rung) (e : Expr) (start rest : List Token) : Prop where
  nests : Nests e
  tight : k.rank ≤ e.rank
  span : Span e.marks start rest

end Grammar

end LoxLang
