import LoxLang.Proofs.Grammar.Recovery.Abreast

/-! Two readings that go through the same construct. The tokens before the place where they part are
read in both alike; what is behind it is the same again, so whatever the one makes of it the other does
too. One lemma for each construct that can hold a declaration. -/
namespace LoxLang.Grammar
open Cursor

variable {α β : Type} {rest rest' : List Token} {us ts body other test step : List Token.Kind}
  {kind : Token.Kind}

/-- Readings that are alike do the same. -/
theorem relabelsSame (ids : NodeId) (n : Nat) : Relabeling.StatementsRelabel ⟨id, ids⟩ True n n :=
  Relabeling.statementsRelabel _ ⟨Nat.le_refl n, fun _ => rfl⟩

section Statements

theorem Chosen.crosses {inner : Nat → Rule Stmt} (chosen : Chosen kind fun _ => inner)
    (open_ : kind ≠ .endOfFile) (crosses : Crosses rest rest' inner us) :
    Crosses rest rest' statement (kind :: us) := by
  apply Crosses.of_succ rfl
  intro n c d beside
  exact (crosses (beside.step open_)).of_eq (chosen n c beside.at_left.next)
    (chosen n d beside.at_right.next)

theorem condition_acceptsIn {tails : List Token.Kind → Prop} (opening closing : SyntaxError.Place)
    (tested : AcceptsIn tails assignment ts (.symbol .rightParen :: body)) :
    AcceptsIn tails (condition opening closing) (.symbol .leftParen :: ts) body :=
  fun tail member => condition_accepts _ _ (tested tail member)

theorem Beside.symbol {c d : Cursor} {s : Symbol} (place : SyntaxError.Place)
    (beside : Beside rest rest' (.symbol s :: us) c d) :
    Abreast 1 (expectSymbol s place) (expectSymbol s place) c d (Beside rest rest' us) := by
  have accepts : AcceptsIn (Following rest rest') (fun _ => expectSymbol s place) (.symbol s :: us) us := by
    intro tail _ n reported c here
    exact (expectSymbol_reaches place here).mono fun _ _ there => ⟨there, trivial⟩
  exact beside.abreast (n := 0) accepts fun _ => (Takes.expectSymbol s place).extends_

theorem Beside.name {c d : Cursor} (role : SyntaxError.NameRole)
    (beside : Beside rest rest' (.identifier :: us) c d) :
    Abreast 1 (expectName role) (expectName role) c d (Beside rest rest' us) := by
  have accepts : AcceptsIn (Following rest rest') (fun _ => expectName role) (.identifier :: us) us := by
    intro tail _ n reported c here
    exact (expectName_reaches role here).mono fun _ _ there => ⟨there, trivial⟩
  exact beside.abreast (n := 0) accepts fun _ => (Takes.expectName role).extends_

theorem Alike.symbol {c d : Cursor} (s : Symbol) (place : SyntaxError.Place) (alike : Alike 1 c d) :
    Abreast 1 (expectSymbol s place) (expectSymbol s place) c d (Alike 1) :=
  alike.abreast fun _ => Relabeling.Relabels.expectSymbol s place

theorem whileStatement_crosses
    (tested : AcceptsIn (Following rest rest') assignment ts (.symbol .rightParen :: body))
    (crosses : Crosses rest rest' statement body) :
    Crosses rest rest' whileStatement (.symbol .leftParen :: ts) := by
  apply Crosses.of_succ rfl
  intro n c d beside
  apply (beside.abreast (condition_acceptsIn _ _ tested) fun _ =>
    (condition_takes (Nat.le_refl n) _ _).extends_).bind
  exact fun _ _ c d beside => (crosses beside).bind fun _ _ _ _ => .pure

theorem ifStatement_crosses
    (tested : AcceptsIn (Following rest rest') assignment ts (.symbol .rightParen :: body))
    (crosses : Crosses rest rest' statement body) :
    Crosses rest rest' ifStatement (.symbol .leftParen :: ts) := by
  apply Crosses.of_succ rfl
  intro n c d beside
  apply (beside.abreast (condition_acceptsIn _ _ tested) fun _ =>
    (condition_takes (Nat.le_refl n) _ _).extends_).bind
  intro _ _ c d beside
  apply (crosses beside).bind
  intro _ _ c d alike
  have elseBranch := alike.abreast fun ids =>
    Relabeling.Relabels.optionalAfter (.keyword .else_) (relabelsSame ids n).statement
  exact elseBranch.bind fun _ _ _ _ => .pure

theorem ifStatement_crosses_else
    (tested : AcceptsIn (Following rest rest') assignment ts (.symbol .rightParen :: body))
    (thenBranch : AcceptsIn (Following rest rest') statement body (.keyword .else_ :: other))
    (crosses : Crosses rest rest' statement other) :
    Crosses rest rest' ifStatement (.symbol .leftParen :: ts) := by
  apply Crosses.of_succ rfl
  intro n c d beside
  apply (beside.abreast (condition_acceptsIn _ _ tested) fun _ =>
    (condition_takes (Nat.le_refl n) _ _).extends_).bind
  intro _ _ c d beside
  apply (beside.abreast thenBranch fun stop =>
    (statementsExtend [] stop (Nat.le_refl n)).statement.extends_.inside).bind
  intro _ _ c d beside
  have elseBranch : Abreast 1 (optionalAfter (.keyword .else_) (statement n))
      (optionalAfter (.keyword .else_) (statement n)) c d (Alike 1) :=
    (crosses (beside.step nofun)).map.of_eq (bind_of_ok (accept_of_at beside.at_left nofun))
      (bind_of_ok (accept_of_at beside.at_right nofun))
  exact elseBranch.bind fun _ _ _ _ => .pure

theorem forStatement_crosses (first : AcceptsIn (Following rest rest') forInitializer ts test)
    (tested : AcceptsIn (Following rest rest') (expressionUnless .semicolon) test
      (.symbol .semicolon :: step))
    (stepped : AcceptsIn (Following rest rest') (expressionUnless .rightParen) step
      (.symbol .rightParen :: body))
    (crosses : Crosses rest rest' statement body) :
    Crosses rest rest' forStatement (.symbol .leftParen :: ts) := by
  apply Crosses.of_succ rfl
  intro n c d beside
  apply (beside.symbol _).bind
  intro _ _ c d beside
  apply (beside.abreast first fun _ => forInitializer_extends (Nat.le_refl n)).bind
  intro _ _ c d beside
  apply (beside.abreast tested fun _ => expressionUnless_extends (Nat.le_refl n) _).bind
  intro _ _ c d beside
  apply (beside.symbol _).bind
  intro _ _ c d beside
  apply (beside.abreast stepped fun _ => expressionUnless_extends (Nat.le_refl n) _).bind
  intro _ _ c d beside
  apply (beside.symbol _).bind
  exact fun _ _ c d beside => (crosses beside).bind fun _ _ _ _ => .pure

end Statements

section Declarations

theorem declaration_crosses_statement (begins : Begins opensStatement us)
    (crosses : Crosses rest rest' statement us) : Crosses rest rest' declaration us := by
  apply Crosses.of_succ rfl
  intro n c d beside
  exact (crosses beside).recovering.of_eq
    (declaration_of_statement (beside.at_left.begins (begins.append _)))
    (declaration_of_statement (beside.at_right.begins (begins.append _)))

theorem declaration_crosses_function (crosses : Crosses rest rest' (routine · .function) us) :
    Crosses rest rest' declaration (.keyword .fun_ :: us) := by
  apply Crosses.of_succ rfl
  intro n c d beside
  exact (crosses (beside.step nofun)).map.recovering.of_eq
    (by rw [declaration_chosen, beside.at_left.next])
    (by rw [declaration_chosen, beside.at_right.next])

theorem declaration_crosses_class (crosses : Crosses rest rest' classDeclaration us) :
    Crosses rest rest' declaration (.keyword .class_ :: us) := by
  apply Crosses.of_succ rfl
  intro n c d beside
  exact (crosses (beside.step nofun)).recovering.of_eq
    (by rw [declaration_chosen, beside.at_left.next])
    (by rw [declaration_chosen, beside.at_right.next])

theorem classDeclaration_crosses
    (clause : ∀ tail, ts ++ tail = .symbol .leftBrace :: (us ++ tail) ∨
      ts ++ tail = .symbol .less :: .identifier :: .symbol .leftBrace :: (us ++ tail))
    (crosses : Crosses rest rest' methods us) :
    Crosses rest rest' classDeclaration (.identifier :: ts) := by
  have parent : AcceptsIn (Following rest rest')
      (fun _ => optionalAfter (.symbol .less) (reference =<< expectName .ofSuperclass)) ts
      (.symbol .leftBrace :: us) := fun tail _ => superclass_accepts (clause tail)
  have rules (stop : Token) : Extends [] stop False
      (optionalAfter (.symbol .less) (reference =<< expectName .ofSuperclass))
      (optionalAfter (.symbol .less) (reference =<< expectName .ofSuperclass)) :=
    .optionalAfter nofun ((Takes.expectName _).extends_.bind fun t => .reference t)
  apply Crosses.of_succ rfl
  intro n c d beside
  apply (beside.name _).bind
  intro _ _ c d beside
  apply (beside.abreast (n := n) parent rules).bind
  intro _ _ c d beside
  apply (beside.symbol _).bind
  intro _ _ c d beside
  apply (crosses beside).bind
  exact fun _ _ c d alike => (alike.symbol _ _).bind fun _ _ _ _ => .pure

theorem routine_crosses
    (list : AcceptsIn (Following rest rest') (fun n => listUnless .rightParen (parameters n 0)) ts
      (.symbol .rightParen :: .symbol .leftBrace :: us))
    (crosses : Crosses rest rest' block us) (role : Routine) :
    Crosses rest rest' (routine · role) (.identifier :: .symbol .leftParen :: ts) := by
  apply Crosses.of_succ rfl
  intro n c d beside
  apply (beside.name _).bind
  intro _ _ c d beside
  apply (beside.symbol _).bind
  intro _ _ c d beside
  apply (beside.abreast list fun _ => .listUnless _ (parameters_extends (Nat.le_refl n) 0)).bind
  intro _ _ c d beside
  apply (beside.symbol _).bind
  intro _ _ c d beside
  apply (beside.symbol _).bind
  exact fun _ _ c d beside => (crosses beside).bind fun _ _ _ _ => .pure

theorem block_crosses (crosses : Crosses rest rest' blockDeclarations us) :
    Crosses rest rest' block us := by
  apply Crosses.of_succ rfl
  intro n c d beside
  apply (crosses beside).bind
  exact fun _ _ c d alike => (alike.symbol _ _).bind fun _ _ _ _ => .pure

end Declarations

section Lists

variable {item : Nat → Rule α} {list : Nat → Rule (List β)}

variable (rest rest') in
/-- From these kinds of tokens a list goes on with an item. -/
structure Repeats (item : Nat → Rule α) (list : Nat → Rule (List β)) (us : List Token.Kind) : Prop where
  zero : list 0 = exhausted
  succ : ∃ build : α → List β → List β, ∀ {tail reported c n}, Following rest rest' tail →
    At (us ++ tail) reported c →
      list (n + 1) c = (do let first ← item n; return build first (← list n)) c

theorem Repeats.first (repeats : Repeats rest rest' item list us) (first : Crosses rest rest' item us)
    (others : ∀ {n c d}, Alike 1 c d → Abreast 1 (list n) (list n) c d (Alike 1)) :
    Crosses rest rest' list us := by
  obtain ⟨build, succ⟩ := repeats.succ
  apply Crosses.of_succ repeats.zero
  intro n c d beside
  refine Abreast.of_eq ?_ (succ (.inl rfl) beside.at_left) (succ (.inr rfl) beside.at_right)
  apply (first beside).bind
  exact fun _ _ c d alike => (others alike).bind fun _ _ _ _ => .pure

theorem Repeats.later (repeats : Repeats rest rest' item list ts)
    (first : AcceptsIn (Following rest rest') item ts us)
    (rules : ∀ n stop, Extends [] stop False (item n) (item n))
    (others : Crosses rest rest' list us) : Crosses rest rest' list ts := by
  obtain ⟨build, succ⟩ := repeats.succ
  apply Crosses.of_succ repeats.zero
  intro n c d beside
  refine Abreast.of_eq ?_ (succ (.inl rfl) beside.at_left) (succ (.inr rfl) beside.at_right)
  apply (beside.abreast first (rules n)).bind
  exact fun _ _ c d beside => (others beside).bind fun _ _ _ _ => .pure

end Lists

end LoxLang.Grammar
