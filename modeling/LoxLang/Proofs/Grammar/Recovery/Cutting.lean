import LoxLang.Proofs.Grammar.Recovery.Breaking

/-! A statement without its semicolon. Where a declaration is derived that ends in a semicolon, this one
is the end of a `var`, `print`, `return` or expression statement, and without it the declaration breaks
off before any token that does not go on with an expression. -/
namespace LoxLang.Grammar

variable {p : Phrase} {ts rest body : List Token.Kind} {found kind : Token.Kind}

/-- What follows a derivation can be left away, all or some of it. -/
theorem Derives.without (d : Derives p ts rest) {r tail : List Token.Kind} (split : rest = r ++ tail) :
    ∃ own, ts = own ++ tail ∧ Derives p own r := by
  induction d generalizing r with
  | absent => exact ⟨r, split, .absent⟩
  | done => exact ⟨r, split, .done⟩
  | program body ih =>
    obtain ⟨own, same, d⟩ := ih (r := .endOfFile :: r) (by rw [split]; rfl)
    exact ⟨own, same, .program d⟩
  | forStmt first condition increment s ih ih₁ ih₂ ih₃ =>
    obtain ⟨body, rfl, repeated⟩ := ih₃ split
    obtain ⟨step, rfl, stepped⟩ := ih₂ (r := .symbol .rightParen :: body) rfl
    obtain ⟨test, rfl, tested⟩ := ih₁ (r := .symbol .semicolon :: step) rfl
    obtain ⟨own, rfl, started⟩ := ih rfl
    exact ⟨_ :: _ :: own, rfl, .forStmt started tested stepped repeated⟩
  | super_ =>
    subst split
    exact ⟨_ :: _ :: _ :: r, rfl, .super_⟩
  | _ => grind [intro Derives]

/-- A derivation is one of its own tokens, which stand before what follows it. -/
theorem Derives.alone (d : Derives p ts rest) : ∃ own, ts = own ++ rest ∧ Derives p own [] :=
  d.without rfl

theorem Derives.suffix (d : Derives p ts rest) : rest <:+ ts := by
  obtain ⟨own, rfl, _⟩ := d.alone
  exact List.suffix_append own rest

theorem behind (suffix : rest <:+ ts) : rest <:+ kind :: ts := suffix.trans (List.suffix_cons _ _)

theorem behind_of (d : Derives p ts (kind :: rest)) : rest <:+ ts := (List.suffix_cons _ _).trans d.suffix

/-- What ends in a semicolon ends so in its last part. -/
theorem ends_within {kind' : Token.Kind} (inside : body <:+ ts) (shorter : rest.length < body.length)
    (ends : .symbol .semicolon :: rest <:+ kind :: kind' :: ts) : .symbol .semicolon :: rest <:+ body :=
  List.suffix_of_suffix_length_le ends (behind (behind inside)) shorter

theorem Derives.statement_shortens (s : Derives .statement ts rest) : rest.length < ts.length := by
  obtain ⟨own, rfl, own_s⟩ := s.alone
  cases own with
  | nil =>
    have begins : Begins opensStatement [] := own_s.opens
    cases begins
  | cons kind own =>
    rw [List.length_append, List.length_cons]
    omega

/-- Of one token list, what follows a brace does not follow a semicolon. -/
theorem not_both_closed (brace : .symbol .rightBrace :: rest <:+ ts)
    (semicolon : .symbol .semicolon :: rest <:+ ts) : False := by
  have same := (List.suffix_of_suffix_length_le brace semicolon (Nat.le_refl _)).eq_of_length rfl
  cases same

/-- What a phrase that ends in a semicolon is without it. -/
def Cut (found : Token.Kind) : Phrase → List Token.Kind → List Token.Kind → Prop
  | .declaration, ts, rest => .symbol .semicolon :: rest <:+ ts →
    ∃ own, ts = own ++ .symbol .semicolon :: rest ∧ Lacks found .declaration own
  | .varDecl, ts, rest => ∃ own, ts = own ++ .symbol .semicolon :: rest ∧ Lacks found .varDecl own
  | .exprStmt, ts, rest => ∃ own, ts = own ++ .symbol .semicolon :: rest ∧ Lacks found .exprStmt own
  | .statement, ts, rest | .forStmt, ts, rest | .ifStmt, ts, rest | .printStmt, ts, rest
  | .returnStmt, ts, rest | .whileStmt, ts, rest => .symbol .semicolon :: rest <:+ ts →
    ∃ own, ts = own ++ .symbol .semicolon :: rest ∧ Lacks found .statement own
  | .elseBranch, ts, rest | .optional .elseBranch, ts, rest => ts = rest ∨
    ∃ more, ts = .keyword .else_ :: more ∧ rest.length < more.length ∧
      (.symbol .semicolon :: rest <:+ more →
        ∃ own, more = own ++ .symbol .semicolon :: rest ∧ Lacks found .statement own)
  | .block, ts, rest | .function, ts, rest | .funDecl, ts, rest | .classDecl, ts, rest =>
    .symbol .rightBrace :: rest <:+ ts
  | _, _, _ => True

theorem Derives.cut (foreign : Foreign found) (other : found ≠ .symbol .equal)
    (d : Derives p ts rest) : Cut found p ts rest := by
  have loose : grip found < 1 := by
    rw [foreign.grip]
    decide
  induction d with
  -- these end in a brace, so no semicolon of theirs can be missing at the end
  | ofClass d ih | ofFunction d ih | ofBlock d ih => exact fun ends => (not_both_closed ih ends).elim
  | ofVariable d ih =>
    obtain ⟨own, rfl, lacks⟩ := ih
    exact fun _ => ⟨own, rfl, .ofVariable lacks⟩
  | ofStatement s ih =>
    intro ends
    obtain ⟨own, rfl, lacks⟩ := ih ends
    exact ⟨own, rfl, .ofStatement lacks⟩
  | classDecl clause methods ih ih' =>
    exact behind (behind (behind methods.suffix |>.trans clause.suffix))
  | funDecl f ih => exact behind ih
  | function parameters few block ih ih' =>
    exact behind (behind (List.IsSuffix.trans (behind ih') parameters.suffix))
  | varDecl value ih =>
    obtain ⟨own, rfl, own_value⟩ := value.alone
    refine ⟨_ :: _ :: own, rfl, ?_⟩
    cases own_value with
    | absent => exact .unset other
    | present once =>
      cases once with
      | initializer value => exact .set value loose
  | ofExpression s ih =>
    obtain ⟨own, rfl, lacks⟩ := ih
    exact fun _ => ⟨own, rfl, .ofExpression lacks⟩
  | ofFor s ih | ofIf s ih | ofPrint s ih | ofReturn s ih | ofWhile s ih => exact ih
  | exprStmt value ih =>
    obtain ⟨own, rfl, own_value⟩ := value.alone
    exact ⟨own, rfl, .exprStmt own_value loose⟩
  | forStmt first condition increment s ih ih₁ ih₂ ih₃ =>
    intro ends
    have inside := (behind_of increment).trans ((behind_of condition).trans first.suffix)
    obtain ⟨own, rfl, lacks⟩ := ih₃ (ends_within inside s.statement_shortens ends)
    obtain ⟨step, rfl, stepped⟩ := increment.alone
    obtain ⟨test, rfl, tested⟩ := condition.alone
    obtain ⟨start, rfl, started⟩ := first.alone
    exact ⟨_ :: _ :: (start ++ (test ++ _ :: (step ++ _ :: own))), by simp,
      .round (started.append _) (tested.append _) (stepped.append _) lacks⟩
  | ifStmt condition s alternative ih ih₁ ih₂ =>
    intro ends
    have inside := behind_of condition
    obtain ⟨test, rfl, tested⟩ := condition.alone
    -- the semicolon at the end is that of the last branch
    obtain rfl | ⟨more, rfl, shorter, cut⟩ := ih₂
    · obtain ⟨own, rfl, lacks⟩ := ih₁ (ends_within inside s.statement_shortens ends)
      exact ⟨_ :: _ :: (test ++ _ :: own), by simp, .thenBranch (tested.append _) lacks⟩
    · obtain ⟨own, rfl, lacks⟩ := cut (ends_within ((behind_of s).trans inside) shorter ends)
      obtain ⟨body, rfl, own_body⟩ := s.alone
      exact ⟨_ :: _ :: (test ++ _ :: (body ++ _ :: own)), by simp,
        .elseBranch (tested.append _) (own_body.append _) lacks⟩
  | elseBranch s ih => exact .inr ⟨_, rfl, s.statement_shortens, ih⟩
  | printStmt value ih =>
    obtain ⟨own, rfl, own_value⟩ := value.alone
    exact fun _ => ⟨_ :: own, rfl, .print own_value loose⟩
  | returnStmt value ih =>
    obtain ⟨own, rfl, own_value⟩ := value.alone
    refine fun _ => ⟨_ :: own, rfl, ?_⟩
    cases own_value with
    | absent => exact .returnNothing foreign
    | present value => exact .returnValue value loose
  | whileStmt condition s ih ih' =>
    intro ends
    obtain ⟨own, rfl, lacks⟩ := ih' (ends_within (behind_of condition) s.statement_shortens ends)
    obtain ⟨test, rfl, tested⟩ := condition.alone
    exact ⟨_ :: _ :: (test ++ _ :: own), by simp, .loop (tested.append _) lacks⟩
  | block body ih => exact behind body.suffix
  | @absent p _ => cases p <;> first | trivial | exact .inl rfl
  | @present p _ _ once ih => cases p <;> trivial
  | _ => trivial

/-- Declarations that end in a semicolon are some declarations and one that lacks the semicolon. -/
theorem Derives.last_cut (foreign : Foreign found) (other : found ≠ .symbol .equal)
    (d : Derives (.many .declaration) ts rest) (ends : .symbol .semicolon :: rest <:+ ts) :
    ∃ own broken, ts = own ++ (broken ++ .symbol .semicolon :: rest) ∧
      Derives (.many .declaration) own [] ∧
      Derives .declaration (broken ++ .symbol .semicolon :: rest) rest ∧
      Lacks found .declaration broken := by
  generalize many : Phrase.many .declaration = p at d
  induction d with
  | @done _ rest => exact absurd ends.length_le (by simp)
  | @more _ ts later rest first others ih ih' =>
    cases many
    by_cases shorter : rest.length < later.length
    · obtain ⟨own, broken, rfl, derived, last, lacks⟩ :=
        ih' (List.suffix_of_suffix_length_le ends first.suffix shorter) rfl
      obtain ⟨front, rfl, own_first⟩ := first.alone
      exact ⟨front ++ own, broken, by simp, .more (own_first.append own) derived, last, lacks⟩
    · obtain rfl := others.suffix.eq_of_length_le (Nat.le_of_not_lt shorter)
      obtain ⟨broken, rfl, lacks⟩ := first.cut foreign other ends
      exact ⟨[], broken, rfl, .done, first, lacks⟩
  | _ => cases many

end LoxLang.Grammar
