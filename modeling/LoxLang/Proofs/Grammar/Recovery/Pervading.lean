import LoxLang.Proofs.Grammar.Recognition

/-! What holds of statements that end in one another. A property of the places where statements begin
may pass from the last part of a statement to the whole of it, as breaking off does. Then it passes from
behind an `else` to the `if` of the derivation, though the rules give the `else` to the nearest `if`:
either that is the same one, or it holds already where the nearest one begins. -/
namespace LoxLang.Grammar

variable {α : Type} {p : Phrase} {ts rest other body test step : List Token.Kind}

/-- Before each of these tails the rule goes from the one to the other without a report. -/
def AcceptsIn (tails : List Token.Kind → Prop) (rule : Nat → Rule α) (ts rest : List Token.Kind) : Prop :=
  ∀ tail, tails tail → Accepts rule (ts ++ tail) (rest ++ tail)

variable (tails : List Token.Kind → Prop) (holds : List Token.Kind → Prop)

/-- What holds where a statement begins holds where a statement begins that it is the last part of. -/
structure Pervades : Prop where
  loop : ∀ {ts body}, AcceptsIn tails assignment ts (.symbol .rightParen :: body) → holds body →
    holds (.keyword .while_ :: .symbol .leftParen :: ts)
  rounds : ∀ {ts test step body}, AcceptsIn tails forInitializer ts test →
    AcceptsIn tails (expressionUnless .semicolon) test (.symbol .semicolon :: step) →
    AcceptsIn tails (expressionUnless .rightParen) step (.symbol .rightParen :: body) → holds body →
    holds (.keyword .for_ :: .symbol .leftParen :: ts)
  thenBranch : ∀ {ts body}, AcceptsIn tails assignment ts (.symbol .rightParen :: body) → holds body →
    holds (.keyword .if_ :: .symbol .leftParen :: ts)
  elseBranch : ∀ {ts body other}, AcceptsIn tails assignment ts (.symbol .rightParen :: body) →
    AcceptsIn tails statement body (.keyword .else_ :: other) → holds other →
    holds (.keyword .if_ :: .symbol .leftParen :: ts)

/-- The places along which `else` branches follow, up to one with which it holds. -/
inductive Leading : List Token.Kind → List (List Token.Kind) → Prop
  | last {more} (held : holds more) : Leading (.keyword .else_ :: more) []
  | branch {more next path} (accepts : AcceptsIn tails statement more next) (others : Leading next path) :
    Leading (.keyword .else_ :: more) (next :: path)

/-- A statement is read up to one of the places that follow it, or it holds where it begins. -/
def Sticks (ts rest : List Token.Kind) : Prop :=
  ∀ path, Leading tails holds rest path →
    (∃ out left, out :: left <:+ rest :: path ∧ AcceptsIn tails statement ts out) ∨ holds ts

variable {tails holds}

theorem Sticks.of_accepts (accepts : AcceptsIn tails statement ts rest) : Sticks tails holds ts rest :=
  fun path _ => .inl ⟨rest, path, List.suffix_refl _, accepts⟩

theorem Leading.suffix {path left : List (List Token.Kind)} {out : List Token.Kind}
    (leading : Leading tails holds rest path) (suffix : out :: left <:+ rest :: path) :
    Leading tails holds out left := by
  induction leading with
  | last held =>
    obtain ⟨rfl, rfl⟩ := eq_of_suffix_single suffix
    exact .last held
  | branch accepts others ih =>
    obtain same | later := List.suffix_cons_iff.mp suffix
    · cases same
      exact .branch accepts others
    · exact ih later

/-- An `if` takes the `else` branch that follows what it is read up to. -/
theorem Leading.taken {path : List (List Token.Kind)} (pervades : Pervades tails holds)
    (leading : Leading tails holds rest path)
    (test : AcceptsIn tails assignment ts (.symbol .rightParen :: body))
    (thenBranch : AcceptsIn tails statement body rest) :
    (∃ out left, out :: left <:+ path ∧
      AcceptsIn tails statement (.keyword .if_ :: .symbol .leftParen :: ts) out) ∨
    holds (.keyword .if_ :: .symbol .leftParen :: ts) := by
  cases leading with
  | last held => exact .inr (pervades.elseBranch test thenBranch held)
  | branch accepts others =>
    refine .inl ⟨_, _, List.suffix_refl _, fun tail member => ?_⟩
    exact statement_if (test tail member) (thenBranch tail member)
      (optionalAfter_accepts nofun (accepts tail member))

/-- An `if` sticks whether or not the derivation gives the `else` that follows to it. -/
theorem sticks_if (pervades : Pervades tails holds)
    (test : AcceptsIn tails assignment ts (.symbol .rightParen :: body))
    (thenBranch : Sticks tails holds body other)
    (alternative : other = rest ∨ ∃ more, other = .keyword .else_ :: more ∧
      Sticks tails holds more rest) :
    Sticks tails holds (.keyword .if_ :: .symbol .leftParen :: ts) rest := by
  intro path leading
  obtain rfl | ⟨more, rfl, elseBranch⟩ := alternative
  · obtain ⟨place, follows, suffix, accepts⟩ | held := thenBranch path leading
    · have taken := (leading.suffix suffix).taken pervades test accepts
      refine taken.imp_left ?_
      rintro ⟨out, left, later, whole⟩
      exact ⟨out, left, later.trans ((List.suffix_cons _ _).trans suffix), whole⟩
    · exact .inr (pervades.thenBranch test held)
  -- if the branch behind the `else` is read, the place behind it is one more along which to read on;
  -- if it holds there, the `else` is the last, whichever `if` it is given to
  · obtain ⟨next, beyond, along, elseAccepts⟩ | held := elseBranch path leading
    · have longer := Leading.branch elseAccepts (leading.suffix along)
      obtain ⟨place, follows, suffix, accepts⟩ | held := thenBranch _ longer
      · have taken := (longer.suffix suffix).taken pervades test accepts
        refine taken.imp_left ?_
        rintro ⟨out, left, later, whole⟩
        refine ⟨out, left, ?_, whole⟩
        obtain same | shorter := List.suffix_cons_iff.mp suffix
        · cases same
          exact later.trans along
        · exact (later.trans ((List.suffix_cons _ _).trans shorter)).trans along
      · exact .inr (pervades.thenBranch test held)
    · obtain ⟨place, follows, suffix, accepts⟩ | held := thenBranch [] (.last held)
      · obtain ⟨rfl, rfl⟩ := eq_of_suffix_single suffix
        exact .inr (pervades.elseBranch test accepts held)
      · exact .inr (pervades.thenBranch test held)

/-- An expression before a symbol that does not go on with it. -/
theorem Derives.tested {s : Symbol} (d : Derives .assignment ts (.symbol s :: rest))
    (loose : grip (.symbol s) < 1) : AcceptsIn tails assignment ts (.symbol s :: rest) :=
  fun tail _ => (d.append tail).recognized (.cons loose)

theorem Derives.maybeTested {s : Symbol} (d : Derives (.optional .assignment) ts (.symbol s :: rest))
    (closes : opensExpression (.symbol s) = false) (loose : grip (.symbol s) < 1) :
    AcceptsIn tails (expressionUnless s) ts (.symbol s :: rest) :=
  fun tail _ => expressionUnless_accepts closes
    (recognized_optional (d.append tail) (d.append tail).recognized loose)

variable (tails holds) in
/-- What is made of the statements in a derivation. -/
def Stuck : Phrase → List Token.Kind → List Token.Kind → Prop
  | .statement, ts, rest | .forStmt, ts, rest | .ifStmt, ts, rest | .whileStmt, ts, rest =>
    Sticks tails holds ts rest
  | .elseBranch, ts, rest => ∃ more, ts = .keyword .else_ :: more ∧ Sticks tails holds more rest
  | .optional .elseBranch, ts, rest =>
    ts = rest ∨ ∃ more, ts = .keyword .else_ :: more ∧ Sticks tails holds more rest
  | _, _, _ => True

theorem Derives.sticks (pervades : Pervades tails holds) (d : Derives p ts rest) :
    Stuck tails holds p ts rest := by
  induction d with
  | ofExpression s ih =>
    exact .of_accepts fun tail _ =>
      statement_expression (s.append tail).opens (s.append tail).recognized
  | ofFor s ih | ofIf s ih | ofWhile s ih => exact ih
  | ofPrint s ih =>
    cases s with
    | printStmt value =>
      exact .of_accepts fun tail member => statement_print (value.tested (by decide) tail member)
  | ofReturn s ih =>
    cases s with
    | returnStmt value =>
      exact .of_accepts fun tail member =>
        statement_return (value.maybeTested rfl (by decide) tail member)
  | ofBlock s ih =>
    refine .of_accepts fun tail _ => ?_
    obtain ⟨more, same, declarations⟩ := (s.append tail).recognized
    rw [same]
    exact statement_block declarations
  | forStmt first condition increment s ih ih₁ ih₂ ih₃ =>
    have initialized : AcceptsIn tails forInitializer _ _ := fun tail _ => (first.append tail).recognized
    have tested : AcceptsIn tails (expressionUnless .semicolon) _ _ :=
      condition.maybeTested rfl (by decide)
    have stepped : AcceptsIn tails (expressionUnless .rightParen) _ _ :=
      increment.maybeTested rfl (by decide)
    intro path leading
    obtain ⟨out, left, suffix, accepts⟩ | held := ih₃ path leading
    · exact .inl ⟨out, left, suffix, fun tail member =>
        statement_for (initialized tail member) (tested tail member) (stepped tail member)
          (accepts tail member)⟩
    · exact .inr (pervades.rounds initialized tested stepped held)
  | ifStmt condition s alternative ih ih₁ ih₂ =>
    exact sticks_if pervades (condition.tested (by decide)) ih₁ ih₂
  | elseBranch s ih => exact ⟨_, rfl, ih⟩
  | whileStmt condition s ih ih' =>
    have tested : AcceptsIn tails assignment _ _ := condition.tested (by decide)
    intro path leading
    obtain ⟨out, left, suffix, accepts⟩ | held := ih' path leading
    · exact .inl ⟨out, left, suffix, fun tail member =>
        statement_while (tested tail member) (accepts tail member)⟩
    · exact .inr (pervades.loop tested held)
  | @absent p _ => cases p <;> first | trivial | exact .inl rfl
  | @present p _ _ once ih => cases p <;> first | trivial | exact .inr ih
  | _ => trivial

/-- If it holds behind an `else`, it holds where the `if` begins. -/
theorem Pervades.otherwise (pervades : Pervades tails holds)
    (condition : Derives .assignment ts (.symbol .rightParen :: body))
    (s : Derives .statement body (.keyword .else_ :: other)) (held : holds other) :
    holds (.keyword .if_ :: .symbol .leftParen :: ts) := by
  have sticks : Sticks tails holds body (.keyword .else_ :: other) := s.sticks pervades
  obtain ⟨place, follows, suffix, accepts⟩ | held := sticks [] (.last held)
  · obtain ⟨rfl, rfl⟩ := eq_of_suffix_single suffix
    exact pervades.elseBranch (condition.tested (by decide)) accepts held
  · exact pervades.thenBranch (condition.tested (by decide)) held

end LoxLang.Grammar
