import LoxLang.Proofs.Grammar.Building.Statement

/-! The names in a tree. A tree refers to variables by names, and to the instance and the superclass of
a method by keywords; it declares variables, parameters, functions and classes under names, though not
directly as a branch of an `if` or as the body of a loop. All of these names and keywords are tokens
that the tree was read from. -/
namespace LoxLang.Grammar

variable (P : Token → Prop) (R Q : Reference → Prop)

mutual

/-- `R` holds of all names and `Q` of all keywords by which the expression refers to something. -/
def exprNames : Expr → Prop
  | .literal _ => True
  | .grouping inner => exprNames inner
  | .unary _ right => exprNames right
  | .binary left _ right => exprNames left ∧ exprNames right
  | .logical left _ right => exprNames left ∧ exprNames right
  | .conditional condition thenBranch elseBranch =>
    exprNames condition ∧ exprNames thenBranch ∧ exprNames elseBranch
  | .variable r => R r
  | .assign r value => R r ∧ exprNames value
  | .call callee _ arguments => exprNames callee ∧ exprsNames arguments
  | .get object _ => exprNames object
  | .set object _ value => exprNames object ∧ exprNames value
  | .this r => Q r
  | .super r _ => Q r

def exprsNames : List Expr → Prop
  | [] => True
  | e :: rest => exprNames e ∧ exprsNames rest

end

def clauseNames : Option Expr → Prop
  | none => True
  | some e => exprNames R Q e

mutual

/-- So they do in the statement; `P` holds of all names that it declares, and no branch of it is a
declaration. -/
def stmtNames : Stmt → Prop
  | .expression e => exprNames R Q e
  | .print e => exprNames R Q e
  | .var name initializer => P name ∧ clauseNames R Q initializer
  | .block body => stmtsNames body
  | .if_ condition thenBranch none =>
    exprNames R Q condition ∧ stmtNames thenBranch ∧ thenBranch.declared? = none
  | .if_ condition thenBranch (some elseBranch) =>
    exprNames R Q condition ∧ (stmtNames thenBranch ∧ thenBranch.declared? = none) ∧
      stmtNames elseBranch ∧ elseBranch.declared? = none
  | .while_ condition body =>
    exprNames R Q condition ∧ stmtNames body ∧ body.declared? = none
  | .function d => declarationNames d
  | .return_ _ value => clauseNames R Q value
  | .class_ name clause methods => P name ∧ (∀ r ∈ clause, R r) ∧ declarationsNames methods

def stmtsNames : List Stmt → Prop
  | [] => True
  | s :: rest => stmtNames s ∧ stmtsNames rest

def declarationNames : Declaration → Prop
  | ⟨name, parameters, body⟩ => P name ∧ (∀ p ∈ parameters, P p) ∧ stmtsNames body

def declarationsNames : List Declaration → Prop
  | [] => True
  | d :: rest => declarationNames d ∧ declarationsNames rest

end

def Tree.Names : Tree → Prop
  | .expr e => exprNames R Q e
  | .exprs es => exprsNames R Q es
  | .clause e => clauseNames R Q e
  | .stmt s => stmtNames P R Q s
  | .stmts body => stmtsNames P R Q body
  | .branch s => ∀ s' ∈ s, stmtNames P R Q s'
  | .routine d => declarationNames P R Q d
  | .routines ds => declarationsNames P R Q ds

/-- A keyword out of the tokens that refers to something. -/
structure IsWord (tokens : List Token) (t : Token) : Prop where
  member : t ∈ tokens
  kind : t.kind = .keyword .this_ ∨ t.kind = .keyword .super_

variable {P R Q} {tokens : List Token} {low high : Nat} {tree : Tree}

theorem stmtNames_for {i : Option Stmt} {e step : Option Expr} {s : Stmt}
    (initializer : ∀ s' ∈ i, stmtNames P R Q s') (condition : clauseNames R Q e)
    (increment : clauseNames R Q step) (body : stmtNames P R Q s) (plain : s.declared? = none) :
    stmtNames P R Q (forLoop i e step s) := by
  have repeated : stmtNames P R Q (loopBody s step) ∧ (loopBody s step).declared? = none := by
    cases step with
    | none => exact ⟨body, plain⟩
    | some e => exact ⟨⟨body, increment, trivial⟩, rfl⟩
  have test : exprNames R Q (e.getD (.literal (.boolean true))) := by
    cases e with
    | none => trivial
    | some e => exact condition
  cases i with
  | none => exact ⟨test, repeated⟩
  | some s' => exact ⟨initializer s' rfl, ⟨test, repeated⟩, trivial⟩

/-- What holds of the names and keywords out of the tokens holds of those in the tree. -/
theorem Built.names (names : ∀ t, IsName tokens t → P t) (references : ∀ r, IsName tokens r.name → R r)
    (words : ∀ r, IsWord tokens r.name → Q r) (built : Built tokens low tree high) :
    tree.Names P R Q := by
  induction built with
  | widen _ _ _ ih => exact ih
  | literal => trivial
  | grouping _ ih | unary _ _ _ ih | get _ _ ih => exact ih
  | @operation tier _ _ _ _ _ _ _ _ _ _ ih ih' => cases tier <;> exact ⟨ih, ih'⟩
  | power _ _ _ _ ih ih' | call _ _ _ _ ih ih' | set _ _ _ ih ih' => exact ⟨ih, ih'⟩
  | conditional _ _ _ ih ih₁ ih₂ => exact ⟨ih, ih₁, ih₂⟩
  | «variable» named => exact references _ named
  | assign named _ ih => exact ⟨references _ named, ih⟩
  | this member kind => exact words _ ⟨member, .inl kind⟩
  | super member kind => exact words _ ⟨member, .inr kind⟩
  | noExprs | noClause | noStmts | noRoutines => trivial
  | moreExprs _ _ ih ih' | moreStmts _ _ ih ih' | moreRoutines _ _ ih ih' => exact ⟨ih, ih'⟩
  | someClause _ ih | expression _ ih | print _ ih | block _ ih | function _ ih | return_ _ _ _ ih =>
    exact ih
  | var named _ ih => exact ⟨names _ named, ih⟩
  | @if_ _ _ other _ _ _ _ _ _ plain _ others ih ih₁ ih₂ =>
    cases other with
    | none => exact ⟨ih, ih₁, plain⟩
    | some s' => exact ⟨ih, ⟨ih₁, plain⟩, ih₂ s' rfl, others s' rfl⟩
  | while_ _ _ plain ih ih' => exact ⟨ih, ih', plain⟩
  | for_ _ _ _ _ plain ih ih₁ ih₂ ih₃ => exact stmtNames_for ih ih₁ ih₂ ih₃ plain
  | class_ named _ parent _ ih =>
    exact ⟨names _ named, fun r member => references r (parent r member).1, ih⟩
  | noBranch => exact nofun
  | someBranch _ ih =>
    rintro _ ⟨⟩
    exact ih
  | routine named listed _ ih => exact ⟨names _ named, fun p member => names p (listed p member), ih⟩

theorem names_of_built (built : Built tokens low tree high) :
    tree.Names (IsName tokens) (fun r => IsName tokens r.name) fun r => IsWord tokens r.name :=
  built.names (fun _ => id) (fun _ => id) fun _ => id

end LoxLang.Grammar
