import LoxLang.Grammar.Statement

/-! The trees that the rules of the grammar can build, whatever else they find in the tokens.
`Built tokens low tree high` says from which tokens a tree is made and that the identities of its
references were given out one by one, starting at `low` and ending before `high`. Identities that
were given out for parts left out of the tree are skipped. -/
namespace LoxLang

/-- The name that a statement declares in the scope around it. -/
def Stmt.declared? : Stmt → Option Token
  | .var name _ => some name
  | .function ⟨name, _, _⟩ => some name
  | .class_ name _ _ => some name
  | _ => none

namespace Grammar

/-- What a rule builds: an expression or a statement, or an optional one, or a list. -/
inductive Tree where
  | expr (e : Expr)
  | exprs (es : List Expr)
  | clause (e : Option Expr)
  | stmt (s : Stmt)
  | stmts (body : List Stmt)
  | branch (s : Option Stmt)
  | routine (d : Declaration)
  | routines (ds : List Declaration)

/-- A name out of the tokens. -/
structure IsName (tokens : List Token) (name : Token) : Prop where
  member : name ∈ tokens
  kind : name.kind = .identifier

inductive Built (tokens : List Token) : Nat → Tree → Nat → Prop
  | widen {low first tree last high} (built : Built tokens first tree last) (below : low ≤ first)
    (above : last ≤ high) : Built tokens low tree high
  | literal {l id} : Built tokens id (.expr (.literal l)) id
  | grouping {e low high} (inner : Built tokens low (.expr e) high) :
    Built tokens low (.expr (.grouping e)) high
  | unary {operator e low high} (member : operator ∈ tokens)
    (sign : operator.kind ∈ [.symbol .bang, .symbol .minus])
    (right : Built tokens low (.expr e) high) : Built tokens low (.expr (.unary operator e)) high
  | operation {tier : Tier} {l operator r low middle high} (member : operator ∈ tokens)
    (chosen : Tier.ofKind? operator.kind = some tier) (left : Built tokens low (.expr l) middle)
    (right : Built tokens middle (.expr r) high) :
    Built tokens low (.expr (tier.node l operator r)) high
  | power {l operator r low middle high} (member : operator ∈ tokens)
    (raises : operator.kind = .symbol .starStar) (left : Built tokens low (.expr l) middle)
    (right : Built tokens middle (.expr r) high) :
    Built tokens low (.expr (.binary l operator r)) high
  | conditional {e t f low first second high} (condition : Built tokens low (.expr e) first)
    (thenBranch : Built tokens first (.expr t) second)
    (elseBranch : Built tokens second (.expr f) high) :
    Built tokens low (.expr (.conditional e t f)) high
  | variable {name id} (named : IsName tokens name) :
    Built tokens id (.expr (.variable ⟨id, name⟩)) (id + 1)
  | assign {name e low high} (named : IsName tokens name)
    (value : Built tokens low (.expr e) high) :
    Built tokens low (.expr (.assign ⟨high, name⟩ e)) (high + 1)
  | call {f paren es low middle high} (member : paren ∈ tokens)
    (closes : paren.kind = .symbol .rightParen)
    (callee : Built tokens low (.expr f) middle)
    (arguments : Built tokens middle (.exprs es) high) :
    Built tokens low (.expr (.call f paren es)) high
  | get {o name low high} (named : IsName tokens name) (object : Built tokens low (.expr o) high) :
    Built tokens low (.expr (.get o name)) high
  | set {o name e low middle high} (named : IsName tokens name)
    (object : Built tokens low (.expr o) middle) (value : Built tokens middle (.expr e) high) :
    Built tokens low (.expr (.set o name e)) high
  | this {keyword id} (member : keyword ∈ tokens) (kind : keyword.kind = .keyword .this_) :
    Built tokens id (.expr (.this ⟨id, keyword⟩)) (id + 1)
  | super {keyword method id} (member : keyword ∈ tokens) (kind : keyword.kind = .keyword .super_)
    (named : IsName tokens method) :
    Built tokens id (.expr (.super ⟨id, keyword⟩ method)) (id + 1)
  | noExprs {id} : Built tokens id (.exprs []) id
  | moreExprs {e es low middle high} (first : Built tokens low (.expr e) middle)
    (rest : Built tokens middle (.exprs es) high) : Built tokens low (.exprs (e :: es)) high
  | noClause {id} : Built tokens id (.clause none) id
  | someClause {e low high} (value : Built tokens low (.expr e) high) :
    Built tokens low (.clause (some e)) high
  | expression {e low high} (value : Built tokens low (.expr e) high) :
    Built tokens low (.stmt (.expression e)) high
  | print {e low high} (value : Built tokens low (.expr e) high) :
    Built tokens low (.stmt (.print e)) high
  | var {name initializer low high} (named : IsName tokens name)
    (value : Built tokens low (.clause initializer) high) :
    Built tokens low (.stmt (.var name initializer)) high
  | block {body low high} (statements : Built tokens low (.stmts body) high) :
    Built tokens low (.stmt (.block body)) high
  | if_ {e s other low first second high} (condition : Built tokens low (.expr e) first)
    (thenBranch : Built tokens first (.stmt s) second) (plain : s.declared? = none)
    (elseBranch : Built tokens second (.branch other) high)
    (others : ∀ s ∈ other, s.declared? = none) :
    Built tokens low (.stmt (.if_ e s other)) high
  | while_ {e s low middle high} (condition : Built tokens low (.expr e) middle)
    (body : Built tokens middle (.stmt s) high) (plain : s.declared? = none) :
    Built tokens low (.stmt (.while_ e s)) high
  | for_ {i e step s low first second third high} (initializer : Built tokens low (.branch i) first)
    (condition : Built tokens first (.clause e) second)
    (increment : Built tokens second (.clause step) third)
    (body : Built tokens third (.stmt s) high) (plain : s.declared? = none) :
    Built tokens low (.stmt (forLoop i e step s)) high
  | function {d low high} (routine : Built tokens low (.routine d) high) :
    Built tokens low (.stmt (.function d)) high
  | return_ {keyword value low high} (member : keyword ∈ tokens)
    (kind : keyword.kind = .keyword .return_)
    (returned : Built tokens low (.clause value) high) :
    Built tokens low (.stmt (.return_ keyword value)) high
  | class_ {name ds low middle high} {clause : Option Reference} (named : IsName tokens name)
    (ordered : low ≤ middle)
    (parent : ∀ r ∈ clause, IsName tokens r.name ∧ low ≤ r.id ∧ r.id < middle)
    (methods : Built tokens middle (.routines ds) high) :
    Built tokens low (.stmt (.class_ name clause ds)) high
  | noStmts {id} : Built tokens id (.stmts []) id
  | moreStmts {s ss low middle high} (first : Built tokens low (.stmt s) middle)
    (rest : Built tokens middle (.stmts ss) high) : Built tokens low (.stmts (s :: ss)) high
  | noBranch {id} : Built tokens id (.branch none) id
  | someBranch {s low high} (taken : Built tokens low (.stmt s) high) :
    Built tokens low (.branch (some s)) high
  | routine {name parameters body low high} (named : IsName tokens name)
    (listed : ∀ p ∈ parameters, IsName tokens p) (statements : Built tokens low (.stmts body) high) :
    Built tokens low (.routine ⟨name, parameters, body⟩) high
  | noRoutines {id} : Built tokens id (.routines []) id
  | moreRoutines {d ds low middle high} (first : Built tokens low (.routine d) middle)
    (rest : Built tokens middle (.routines ds) high) : Built tokens low (.routines (d :: ds)) high

namespace Built

variable {tokens : List Token} {low high : Nat} {tree : Tree}

theorem ordered (built : Built tokens low tree high) : low ≤ high := by
  induction built with
  | class_ named ordered parent methods ih => exact Nat.le_trans ordered ih
  | _ => omega

theorem raised {higher : Nat} (built : Built tokens low tree high) (le : high ≤ higher) :
    Built tokens low tree higher := built.widen (Nat.le_refl _) le

theorem lowered {lower : Nat} (built : Built tokens low tree high) (le : lower ≤ low) :
    Built tokens lower tree high := built.widen le (Nat.le_refl _)

/-- The object and the name of a property that has been built. -/
theorem get_inv {o : Expr} {name : Token} (built : Built tokens low (.expr (.get o name)) high) :
    IsName tokens name ∧ Built tokens low (.expr o) high := by
  generalize same : Tree.expr (.get o name) = tree at built
  induction built with
  | widen _ below above ih => exact ⟨(ih same).1, (ih same).2.widen below above⟩
  | get named object =>
    cases same
    exact ⟨named, object⟩
  | @operation tier => cases tier <;> cases same
  | _ => cases same

theorem variable_inv {r : Reference} (built : Built tokens low (.expr (.variable r)) high) :
    IsName tokens r.name := by
  generalize same : Tree.expr (.variable r) = tree at built
  induction built with
  | widen _ _ _ ih => exact ih same
  | «variable» named =>
    cases same
    exact named
  | @operation tier => cases tier <;> cases same
  | _ => cases same

end Built

end Grammar
end LoxLang
