import LoxLang.Proofs.Grammar.Choice
import LoxLang.Proofs.Grammar.Completeness.Expression

/-! Completeness of the rules of statements. A derivation can give an `else` to any open `if`, the
rules give it to the nearest. So what a statement is read up to depends on the `else` branches that
follow it: with those that can be read after it, the rule ends somewhere along the way, and the
branch it took is one that an enclosing `if` then finds taken. -/
namespace LoxLang.Grammar

variable {ts middle other body test step rest : List Token.Kind} {kind : Token.Kind}

theorem Begins.head_ne {opens : Token.Kind → Bool} (begins : Begins opens ts)
    (closed : opens kind = false) : ts.head? ≠ some kind := by
  intro head
  unfold Begins at begins
  rw [head] at begins
  exact absurd begins (by simp [closed])

section Simple

/-- Before an expression the closing symbol is not next. -/
theorem expressionUnless_present {closing : Symbol} (closes : opensExpression (.symbol closing) = false)
    (begins : Begins opensExpression ts) (accepts : Accepts assignment ts rest) :
    Accepts (expressionUnless closing) ts rest := by
  intro n reported c here
  apply Reaches.bind sees_reaches
  rintro _ _ ⟨rfl, rfl⟩
  rw [if_neg fun seen => begins.head_ne closes ((here.sees closing).mp seen)]
  apply Reaches.bind (accepts here)
  exact fun _ after reached => .pure reached

theorem expressionUnless_accepts {closing : Symbol} (closes : opensExpression (.symbol closing) = false)
    (value : ts = .symbol closing :: rest ∨
      Begins opensExpression ts ∧ Accepts assignment ts (.symbol closing :: rest)) :
    Accepts (expressionUnless closing) ts (.symbol closing :: rest) := by
  obtain rfl | ⟨begins, accepts⟩ := value
  · intro n reported c here
    apply Reaches.bind sees_reaches
    rintro _ _ ⟨rfl, rfl⟩
    rw [if_pos ((here.sees closing).mpr rfl)]
    exact .pure ⟨here, trivial⟩
  · exact expressionUnless_present closes begins accepts

/-- A rule behind which a symbol is called for. -/
theorem closing_accepts {α β : Type} {rule : Nat → Rule α} {s : Symbol} (place : SyntaxError.Place)
    (build : α → β) (accepts : Accepts rule ts (.symbol s :: rest)) :
    Accepts (fun n => do let a ← rule n; expectSymbol s place; return build a) ts rest := by
  intro n reported c here
  apply Reaches.bind (accepts here)
  intro a closing ⟨there, _⟩
  apply Reaches.bind (expectSymbol_reaches place there)
  exact fun _ after there => .pure ⟨there, trivial⟩

theorem varDeclaration_accepts
    (value : ts = .symbol .semicolon :: rest ∨ ∃ value, ts = .symbol .equal :: value ∧
      Accepts assignment value (.symbol .semicolon :: rest)) :
    Accepts varDeclaration (.identifier :: ts) rest := by
  have initialized : Accepts (fun n => optionalAfter (.symbol .equal) (assignment n)) ts
      (.symbol .semicolon :: rest) := by
    obtain rfl | ⟨value, rfl, accepts⟩ := value
    · exact optionalAfter_skips nofun
    · exact optionalAfter_accepts nofun accepts
  intro n reported c here
  apply Reaches.bind (expectName_reaches _ here)
  exact fun name middle there => closing_accepts _ (Stmt.var name) initialized there

theorem forInitializer_nothing : Accepts forInitializer (.symbol .semicolon :: rest) rest := by
  intro n reported c here
  apply Reaches.of_next
  rw [here.next]
  apply Reaches.bind (advance_reaches here nofun)
  exact fun _ after there => .pure ⟨there, trivial⟩

theorem forInitializer_variable (declaration : Accepts varDeclaration ts rest) :
    Accepts forInitializer (.keyword .var_ :: ts) rest := by
  intro n reported c here
  apply Reaches.of_next
  rw [here.next]
  apply Reaches.bind (advance_reaches here nofun)
  intro _ middle there
  exact (declaration there).map fun _ _ => id

theorem forInitializer_expression (begins : Begins opensExpression ts)
    (s : Accepts expressionStatement ts rest) : Accepts forInitializer ts rest := by
  intro n reported c here
  unfold Begins at begins
  rw [here.head] at begins
  apply Reaches.of_next
  split
  · next found => simp [found, opensExpression, opensPrimary] at begins
  · next found => simp [found, opensExpression, opensPrimary] at begins
  · exact (s here).map fun _ _ => id

theorem condition_accepts (opening closing : SyntaxError.Place)
    (e : Accepts assignment ts (.symbol .rightParen :: rest)) :
    Accepts (condition opening closing) (.symbol .leftParen :: ts) rest := by
  intro n reported c here
  apply Reaches.bind (expectSymbol_reaches _ here)
  intro _ middle there
  apply Reaches.bind (e there)
  intro e last ⟨there, _⟩
  apply Reaches.bind (expectSymbol_reaches _ there)
  exact fun _ after there => .pure ⟨there, trivial⟩

theorem parameters_last {before : Nat} (few : before + 1 ≤ 255)
    (closing : rest.head? = some (.symbol .rightParen)) :
    Accepts (parameters · before) (.identifier :: rest) rest := by
  apply Yields.of_succ rfl
  intro n reported c here
  apply Reaches.bind (boundArity_reaches _ few)
  rintro _ _ rfl
  apply Reaches.bind (expectName_reaches _ here)
  intro first after there
  have other : rest.head? ≠ some (.symbol .comma) := by
    rw [closing]
    nofun
  apply Reaches.bind (accept_other_reaches there other)
  rintro _ _ ⟨rfl, rfl⟩
  exact .pure ⟨there, trivial⟩

theorem parameters_more {before : Nat} (few : before + 1 ≤ 255)
    (others : Accepts (parameters · (before + 1)) ts rest) :
    Accepts (parameters · before) (.identifier :: .symbol .comma :: ts) rest := by
  apply Yields.of_succ rfl
  intro n reported c here
  apply Reaches.bind (boundArity_reaches _ few)
  rintro _ _ rfl
  apply Reaches.bind (expectName_reaches _ here)
  intro first middle there
  apply Reaches.bind (accept_reaches there nofun)
  rintro _ after ⟨_, rfl, _, there⟩
  apply Reaches.bind (others there)
  exact fun _ after reached => .pure reached

end Simple

/-- Of a list of one element only the whole ends the list and is not empty. -/
theorem eq_of_suffix_single {α : Type} {a b : α} {left : List α} (suffix : a :: left <:+ [b]) :
    a = b ∧ left = [] := by
  obtain same | none := List.suffix_cons_iff.mp suffix
  · exact List.cons.inj same
  · exact absurd (List.suffix_nil.mp none) nofun

/-- The places along which `else` branches follow: each next one is where the statement behind an
`else` ends, and at the last there is none. -/
inductive Dangling : List Token.Kind → List (List Token.Kind) → Prop
  | last {place} (closed : place.head? ≠ some (.keyword .else_)) : Dangling place []
  | branch {more next path} (accepts : Accepts statement more next) (others : Dangling next path) :
    Dangling (.keyword .else_ :: more) (next :: path)

/-- A rule for a statement ends at one of the places that follow it. -/
def Settles (rule : Nat → Rule Stmt) (ts rest : List Token.Kind) : Prop :=
  ∀ path, Dangling rest path → ∃ out left, out :: left <:+ rest :: path ∧ Accepts rule ts out

theorem Settles.of_accepts {rule : Nat → Rule Stmt} (accepts : Accepts rule ts rest) :
    Settles rule ts rest := fun path _ => ⟨rest, path, List.suffix_refl _, accepts⟩

theorem Settles.accepts {rule : Nat → Rule Stmt} (settles : Settles rule ts rest)
    (closed : rest.head? ≠ some (.keyword .else_)) : Accepts rule ts rest := by
  obtain ⟨out, left, suffix, accepts⟩ := settles [] (.last closed)
  obtain ⟨rfl, rfl⟩ := eq_of_suffix_single suffix
  exact accepts

theorem Dangling.suffix {path left : List (List Token.Kind)} {out : List Token.Kind}
    (dangling : Dangling rest path) (suffix : out :: left <:+ rest :: path) : Dangling out left := by
  induction dangling with
  | last closed =>
    obtain ⟨rfl, rfl⟩ := eq_of_suffix_single suffix
    exact .last closed
  | branch accepts others ih =>
    obtain same | later := List.suffix_cons_iff.mp suffix
    · cases same
      exact .branch accepts others
    · exact ih later

/-- Behind a statement the nearest `if` takes the `else` branch that follows, if there is one. -/
theorem Dangling.takes {path : List (List Token.Kind)} (dangling : Dangling rest path) :
    ∃ out left, out :: left <:+ rest :: path ∧ (path ≠ [] → out :: left <:+ path) ∧
      Accepts (fun n => optionalAfter (.keyword .else_) (statement n)) rest out := by
  cases dangling with
  | last closed =>
    exact ⟨rest, [], List.suffix_refl _, fun some => absurd rfl some, optionalAfter_skips closed⟩
  | branch accepts others =>
    exact ⟨_, _, List.suffix_cons _ _, fun _ => List.suffix_refl _,
      optionalAfter_accepts nofun accepts⟩

section Statements

theorem Chosen.accepts {inner : Token → Nat → Rule Stmt} (chosen : Chosen kind inner)
    (open_ : kind ≠ .endOfFile) (accepts : ∀ t, Accepts (inner t) ts rest) :
    Accepts statement (kind :: ts) rest := by
  apply Yields.of_succ rfl
  intro n reported c here
  obtain ⟨_, there⟩ := here.step open_
  exact (accepts _ there).of_eq (chosen n c here.next)

/-- A statement that begins with no word of its own is an expression statement. -/
theorem statement_expression (begins : Begins opensExpression ts)
    (s : Accepts expressionStatement ts rest) : Accepts statement ts rest := by
  apply Yields.of_succ rfl
  intro n reported c here
  exact (s here).of_eq (statement_of_expression (here.begins begins))

theorem statement_print (value : Accepts assignment ts (.symbol .semicolon :: rest)) :
    Accepts statement (.keyword .print_ :: ts) rest :=
  chosen_print.accepts nofun fun _ => closing_accepts _ Stmt.print value

theorem statement_return
    (value : Accepts (expressionUnless .semicolon) ts (.symbol .semicolon :: rest)) :
    Accepts statement (.keyword .return_ :: ts) rest :=
  chosen_return.accepts nofun fun t => closing_accepts _ (Stmt.return_ t) value

theorem statement_block (declarations : Accepts block ts rest) :
    Accepts statement (.symbol .leftBrace :: ts) rest :=
  chosen_block.accepts nofun fun _ _ _ _ here => (declarations here).map fun _ _ => id

theorem statement_while (test : Accepts assignment ts (.symbol .rightParen :: body))
    (repeated : Accepts statement body rest) :
    Accepts statement (.keyword .while_ :: .symbol .leftParen :: ts) rest := by
  have loop : Accepts whileStatement (.symbol .leftParen :: ts) rest := by
    apply Yields.of_succ rfl
    intro n reported c here
    apply Reaches.bind (condition_accepts _ _ test here)
    intro e middle ⟨there, _⟩
    apply Reaches.bind (repeated there)
    exact fun _ after reached => .pure reached
  exact chosen_while.accepts nofun fun _ => loop

theorem statement_for (first : Accepts forInitializer ts test)
    (condition : Accepts (expressionUnless .semicolon) test (.symbol .semicolon :: step))
    (increment : Accepts (expressionUnless .rightParen) step (.symbol .rightParen :: body))
    (repeated : Accepts statement body rest) :
    Accepts statement (.keyword .for_ :: .symbol .leftParen :: ts) rest := by
  have loop : Accepts forStatement (.symbol .leftParen :: ts) rest := by
    apply Yields.of_succ rfl
    intro n reported c here
    apply Reaches.bind (expectSymbol_reaches _ here)
    intro _ c there
    apply Reaches.bind (first there)
    intro initializer c ⟨there, _⟩
    apply Reaches.bind (condition there)
    intro e c ⟨there, _⟩
    apply Reaches.bind (expectSymbol_reaches _ there)
    intro _ c there
    apply Reaches.bind (increment there)
    intro e c ⟨there, _⟩
    apply Reaches.bind (expectSymbol_reaches _ there)
    intro _ c there
    apply Reaches.bind (repeated there)
    exact fun _ after reached => .pure reached
  exact chosen_for.accepts nofun fun _ => loop

theorem statement_if (test : Accepts assignment ts (.symbol .rightParen :: body))
    (thenBranch : Accepts statement body other)
    (alternative : Accepts (fun n => optionalAfter (.keyword .else_) (statement n)) other rest) :
    Accepts statement (.keyword .if_ :: .symbol .leftParen :: ts) rest := by
  have choice : Accepts ifStatement (.symbol .leftParen :: ts) rest := by
    apply Yields.of_succ rfl
    intro n reported c here
    apply Reaches.bind (condition_accepts _ _ test here)
    intro e c ⟨there, _⟩
    apply Reaches.bind (thenBranch there)
    intro s c ⟨there, _⟩
    apply Reaches.bind (alternative there)
    exact fun _ after reached => .pure reached
  exact chosen_if.accepts nofun fun _ => choice

/-- An `if` settles whether or not the derivation gives the `else` that follows to it. -/
theorem settles_if (test : Accepts assignment ts (.symbol .rightParen :: body))
    (thenBranch : Settles statement body other)
    (alternative : other = rest ∨ ∃ more, other = .keyword .else_ :: more ∧
      Settles statement more rest) :
    Settles statement (.keyword .if_ :: .symbol .leftParen :: ts) rest := by
  intro path dangling
  obtain rfl | ⟨more, rfl, elseBranch⟩ := alternative
  · obtain ⟨place, follows, suffix, accepts⟩ := thenBranch path dangling
    obtain ⟨out, left, later, _, taken⟩ := (dangling.suffix suffix).takes
    exact ⟨out, left, later.trans suffix, statement_if test accepts taken⟩
  · obtain ⟨next, beyond, along, elseAccepts⟩ := elseBranch path dangling
    have longer := Dangling.branch elseAccepts (dangling.suffix along)
    obtain ⟨place, follows, suffix, accepts⟩ := thenBranch _ longer
    obtain ⟨out, left, later, beyond_first, taken⟩ := (longer.suffix suffix).takes
    refine ⟨out, left, ?_, statement_if test accepts taken⟩
    obtain same | shorter := List.suffix_cons_iff.mp suffix
    · cases same
      exact (beyond_first nofun).trans along
    · exact (later.trans shorter).trans along

end Statements

section Declarations

theorem recovering_reaches {rule : Rule Stmt} {reported : List SyntaxError} {c : Cursor}
    (reaches : Reaches rule c fun _ after => At rest reported after ∧ True) :
    Reaches (recovering rule) c fun _ after => At rest reported after ∧ True := by
  cases ended : rule c with
  | ok s after => exact .of_ok (recovering_of_ok ended) (Ends.ok_of reaches ended)
  | error failure after =>
    obtain rfl := Ends.error_of reaches ended
    exact .of_error (recovering_of_exhausted ended) rfl

theorem declaration_statement (begins : Begins opensStatement ts) (s : Accepts statement ts rest) :
    Accepts declaration ts rest := by
  apply Yields.of_succ rfl
  intro n reported c here
  exact (recovering_reaches (s here)).of_eq (declaration_of_statement (here.begins begins))

theorem declaration_variable (d : Accepts varDeclaration ts rest) :
    Accepts declaration (.keyword .var_ :: ts) rest := by
  apply Yields.of_succ rfl
  intro n reported c here
  obtain ⟨_, there⟩ := here.step nofun
  apply (recovering_reaches (d there)).of_eq
  rw [declaration_chosen, here.next]

theorem declaration_function (f : Accepts (routine · .function) ts rest) :
    Accepts declaration (.keyword .fun_ :: ts) rest := by
  apply Yields.of_succ rfl
  intro n reported c here
  obtain ⟨_, there⟩ := here.step nofun
  apply (recovering_reaches ((f there).map fun _ _ => id)).of_eq
  rw [declaration_chosen, here.next]

theorem superclass_accepts
    (clause : ts = .symbol .leftBrace :: body ∨
      ts = .symbol .less :: .identifier :: .symbol .leftBrace :: body) :
    Accepts (fun _ => optionalAfter (.symbol .less) (reference =<< expectName .ofSuperclass)) ts
      (.symbol .leftBrace :: body) := by
  have referred : Accepts (fun _ => reference =<< expectName .ofSuperclass)
      (.identifier :: .symbol .leftBrace :: body) (.symbol .leftBrace :: body) := by
    intro n reported c here
    apply Reaches.bind (expectName_reaches _ here)
    intro parent middle there
    exact (reference_reaches _ there).mono fun _ _ there => ⟨there, trivial⟩
  obtain rfl | rfl := clause
  · exact optionalAfter_skips nofun
  · exact optionalAfter_accepts nofun referred

theorem declaration_class
    (clause : ts = .symbol .leftBrace :: body ∨
      ts = .symbol .less :: .identifier :: .symbol .leftBrace :: body)
    (methods : Accepts methods body (.symbol .rightBrace :: rest)) :
    Accepts declaration (.keyword .class_ :: .identifier :: ts) rest := by
  have read : Accepts classDeclaration (.identifier :: ts) rest := by
    apply Yields.of_succ rfl
    intro n reported c here
    apply Reaches.bind (expectName_reaches _ here)
    intro name c there
    apply Reaches.bind (@superclass_accepts _ _ clause n _ _ there)
    intro superclass c ⟨there, _⟩
    apply Reaches.bind (expectSymbol_reaches _ there)
    exact fun _ c there => closing_accepts _ (Stmt.class_ name superclass) methods there
  apply Yields.of_succ rfl
  intro n reported c here
  obtain ⟨_, there⟩ := here.step nofun
  apply (recovering_reaches (read there)).of_eq
  rw [declaration_chosen, here.next]

theorem parameterList_accepts {count : Nat} (few : count ≤ 255)
    (list : ts = .symbol .rightParen :: body ∨ ts.head? ≠ some (.symbol .rightParen) ∧
      ∀ before, before + count ≤ 255 → Accepts (parameters · before) ts (.symbol .rightParen :: body)) :
    Accepts (fun n => listUnless .rightParen (parameters n 0)) ts (.symbol .rightParen :: body) := by
  obtain rfl | ⟨nonempty, accepts⟩ := list
  · exact listUnless_skips
  · exact listUnless_accepts nonempty (accepts 0 (by omega))

theorem routine_accepts {count : Nat} (few : count ≤ 255)
    (list : ts = .symbol .rightParen :: .symbol .leftBrace :: body ∨
      ts.head? ≠ some (.symbol .rightParen) ∧ ∀ before, before + count ≤ 255 →
        Accepts (parameters · before) ts (.symbol .rightParen :: .symbol .leftBrace :: body))
    (statements : Accepts block body rest) (role : Routine) :
    Accepts (routine · role) (.identifier :: .symbol .leftParen :: ts) rest := by
  have listed := parameterList_accepts few list
  apply Yields.of_succ rfl
  intro n reported c here
  apply Reaches.bind (expectName_reaches _ here)
  intro name c there
  apply Reaches.bind (expectSymbol_reaches _ there)
  intro _ c there
  apply Reaches.bind (listed there)
  intro names c ⟨there, _⟩
  apply Reaches.bind (expectSymbol_reaches _ there)
  intro _ c there
  apply Reaches.bind (expectSymbol_reaches _ there)
  intro _ c there
  apply Reaches.bind (statements there)
  exact fun _ after reached => .pure reached

theorem block_accepts (declarations : Accepts blockDeclarations ts (.symbol .rightBrace :: rest)) :
    Accepts block ts rest := by
  apply Yields.of_succ rfl
  intro n reported c here
  exact closing_accepts _ id declarations here

/-- A list of declarations or methods stops before a closing brace. -/
theorem stops_reaches {α : Type} {rule : Rule (List α)} {reported : List SyntaxError} {c : Cursor}
    (here : At (.symbol .rightBrace :: rest) reported c) :
    Reaches (do if (← atEnd) || (← sees (.symbol .rightBrace)) then return [] else rule) c
      fun _ after => At (.symbol .rightBrace :: rest) reported after ∧ True := by
  apply Reaches.bind atEnd_reaches
  rintro _ _ ⟨_, rfl⟩
  apply Reaches.bind sees_reaches
  rintro _ _ ⟨rfl, rfl⟩
  rw [(here.sees .rightBrace).mpr rfl, Bool.or_true]
  exact .pure ⟨here, trivial⟩

/-- Before anything else it goes on. -/
theorem goes_on {α : Type} (rule : Rule (List α)) {reported : List SyntaxError} {c : Cursor}
    (here : At ts reported c) (open_ : ts.head? ≠ some .endOfFile)
    (inner : ts.head? ≠ some (.symbol .rightBrace)) :
    (do if (← atEnd) || (← sees (.symbol .rightBrace)) then return [] else rule) c = rule c := by
  have ended : atEnd c = .ok false c := by simp only [atEnd, here.isEmpty_eq_false open_]
  have seen : sees (.symbol .rightBrace) c = .ok false c := by
    simp only [sees, Bool.eq_false_iff.mpr fun seen => inner ((here.sees .rightBrace).mp seen)]
  rw [bind_of_ok ended, bind_of_ok seen]
  rfl

theorem goes_on_reaches {α : Type} {rule : Rule (List α)} {reported : List SyntaxError} {c : Cursor}
    (here : At ts reported c) (open_ : ts.head? ≠ some .endOfFile)
    (inner : ts.head? ≠ some (.symbol .rightBrace))
    (reaches : Reaches rule c fun _ after => At rest reported after ∧ True) :
    Reaches (do if (← atEnd) || (← sees (.symbol .rightBrace)) then return [] else rule) c
      fun _ after => At rest reported after ∧ True := by
  unfold Reaches Ends
  rw [goes_on rule here open_ inner]
  exact reaches

theorem methods_done : Accepts methods (.symbol .rightBrace :: rest) (.symbol .rightBrace :: rest) := by
  apply Yields.of_succ rfl
  intro n reported c here
  exact stops_reaches here

theorem methods_more (begins : Begins [Token.Kind.identifier].contains ts)
    (first : Accepts (routine · .method) ts other) (others : Accepts methods other rest) :
    Accepts methods ts rest := by
  apply Yields.of_succ rfl
  intro n reported c here
  apply goes_on_reaches here (begins.head_ne rfl) (begins.head_ne rfl)
  apply Reaches.bind (first here)
  intro f middle ⟨there, _⟩
  apply Reaches.bind (others there)
  exact fun _ after reached => .pure reached

theorem blockDeclarations_done :
    Accepts blockDeclarations (.symbol .rightBrace :: rest) (.symbol .rightBrace :: rest) := by
  apply Yields.of_succ rfl
  intro n reported c here
  exact stops_reaches here

theorem blockDeclarations_more (begins : Begins opensDeclaration ts)
    (first : Accepts declaration ts other) (others : Accepts blockDeclarations other rest) :
    Accepts blockDeclarations ts rest := by
  apply Yields.of_succ rfl
  intro n reported c here
  apply goes_on_reaches here (begins.head_ne rfl) (begins.head_ne rfl)
  apply Reaches.bind (first here)
  intro d middle ⟨there, _⟩
  apply Reaches.bind (others there)
  exact fun _ after reached => .pure reached

theorem program_done : Accepts program [.endOfFile] [.endOfFile] := by
  apply Yields.of_succ rfl
  intro n reported c here
  apply Reaches.bind atEnd_reaches
  rintro _ _ ⟨rfl, rfl⟩
  rw [here.isEmpty]
  exact .pure ⟨here, trivial⟩

theorem program_more (begins : Begins opensDeclaration ts)
    (first : Accepts declaration ts other) (others : Accepts program other rest) :
    Accepts program ts rest := by
  apply Yields.of_succ rfl
  intro n reported c here
  apply Reaches.bind atEnd_reaches
  rintro _ _ ⟨rfl, rfl⟩
  rw [here.isEmpty_eq_false (begins.head_ne rfl)]
  apply Reaches.bind (first here)
  intro d middle ⟨there, _⟩
  apply Reaches.bind (others there)
  exact fun _ after reached => .pure reached

end Declarations

end LoxLang.Grammar
