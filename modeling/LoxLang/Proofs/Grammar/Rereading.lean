import Mathlib
import LoxLang.Proofs.Grammar.Faithfulness
import LoxLang.Proofs.Grammar.Recognition
import LoxLang.Proofs.Grammar.Regaining

/-! One text has one tree. From the text of an expression that nests, each rule up to the rung of the
expression reads that expression back, whatever it is followed by as long as that does not continue it. Since
a rule gives one result, two expressions that nest and have the same text are the same, but for the
identities of their references. -/
namespace LoxLang.Grammar
open Cursor

/-- What this rung asks of the text of an expression is met on every rung that the expression stands on. -/
def Recoverable (e : Expr) : Prop :=
  ∀ ⦃start rest : List Token⦄, Span e.marks start rest → ∀ ⦃k : Rung⦄, k.rank ≤ e.rank → Rereads e start rest k

/-- How the text of an expression begins. Only an expression looser than a call begins with a sign. -/
structure Beginning (e : Expr) (start : List Token) : Prop where
  opens : Begins opensExpression (start.map (·.kind))
  primary : Rung.call.rank ≤ e.rank → Begins opensPrimary (start.map (·.kind))

theorem Nests.begins {e : Expr} (nests : Nests e) {start rest : List Token} (span : Span e.marks start rest) :
    Beginning e start := by
  induction nests generalizing rest with
  | @literal l =>
    obtain ⟨t, more, rfl, fits, _⟩ := span_cons.mp span
    have opens : opensPrimary t.kind = true := by
      rw [fits.kind]
      cases l with
      | boolean value => cases value <;> rfl
      | _ => rfl
    exact ⟨opensExpression_of_primary _ opens, fun _ => opens⟩
  | grouping | «variable» | this | super =>
    obtain ⟨t, more, rfl, fits, _⟩ := span_cons.mp span
    have opens : opensPrimary t.kind = true := by
      rw [fits.kind]
      rfl
    exact ⟨opensExpression_of_primary _ opens, fun _ => opens⟩
  | call _ tight _ ih | get _ tight ih =>
    obtain ⟨middle, span, _⟩ := span_append.mp span
    have begins := ih span
    exact ⟨begins.opens, fun _ => begins.primary tight⟩
  | unary sign _ _ _ =>
    obtain ⟨t, more, rfl, ⟨rfl, _⟩, _⟩ := span_cons.mp span
    refine ⟨?_, fun tight => absurd tight (by simp [Expr.rank, Expr.rung, Rung.rank])⟩
    simpa [Begins, opensExpression] using .inr (by simpa using sign)
  | power raises _ _ _ _ ih =>
    obtain ⟨middle, span, _⟩ := span_append.mp span
    refine ⟨(ih span).opens, fun tight => ?_⟩
    simp [Expr.rank, Expr.rung, raises, Tier.ofKind?, Rung.rank] at tight
  | @operation t l operator r chosen _ _ _ _ ih =>
    rw [node_marks] at span
    obtain ⟨middle, span, _⟩ := span_append.mp span
    refine ⟨(ih span).opens, fun tight => ?_⟩
    rw [node_rank chosen] at tight
    exact absurd tight (by cases t <;> decide)
  | conditional _ _ _ _ _ ih | set _ _ _ ih =>
    obtain ⟨middle, span, _⟩ := span_append.mp span
    exact ⟨(ih span).opens, fun tight => absurd tight (by simp [Expr.rank, Expr.rung, Rung.rank])⟩
  | assign =>
    obtain ⟨t, more, rfl, fits, _⟩ := span_cons.mp span
    refine ⟨?_, fun tight => absurd tight (by simp [Expr.rank, Expr.rung, Rung.rank])⟩
    rw [Begins, List.map_cons, List.head?_cons, Option.any_some, fits.kind]
    rfl

/-- An expression is recoverable if the rule of its own rung reads it back. -/
theorem Nests.recoverable {e : Expr} (nests : Nests e)
    (own : ∀ {start rest : List Token}, Span e.marks start rest → Rereads e start rest e.rung) :
    Recoverable e :=
  fun _ _ span _ le => (own span).descend (nests.begins span).primary le

/-- Any expression is read back as an assignment. -/
theorem Recoverable.assignment {e : Expr} (recoverable : Recoverable e) {start rest : List Token}
    (span : Span e.marks start rest) (free : Free 1 rest) : Regains assignment e start rest :=
  recoverable span (Rung.assignment_le _) free

section Primaries

variable {rest : List Token}

theorem literal_recoverable (l : Literal) : Recoverable (.literal l) := by
  apply Nests.recoverable .literal
  intro start rest span
  simp only [Expr.marks, span_cons, span_nil] at span
  obtain ⟨t, last, rfl, fits, rfl⟩ := span
  apply Regains.of_succ rfl
  intro n c here
  have given : Reaches (do advance; return Expr.literal l) c
      fun e' after => e'.bare = (Expr.literal l).bare ∧ Here last after := by
    apply Reaches.bind (advance_here here)
    exact fun _ after there => .pure ⟨rfl, there⟩
  apply Reaches.of_next
  rw [here.next, fits.kind]
  cases l with
  | boolean value => cases value <;> exact given
  | _ => exact given

/-- A token that is a reference by itself. -/
theorem reference_regains {build : Reference → Expr} {r : Reference}
    (alike : ∀ r' : Reference, r'.name = r.name → (build r').bare = (build r).bare) {c : Cursor}
    (here : Here (r.name :: rest) c) :
    Reaches (do advance; return build (← reference r.name)) c
      fun e' after => e'.bare = (build r).bare ∧ Here rest after := by
  apply Reaches.bind (advance_here here)
  intro _ after there
  apply Reaches.bind (reference_here r.name there)
  rintro r' last ⟨same, there⟩
  exact .pure ⟨alike r' same, there⟩

theorem variable_recoverable (r : Reference) : Recoverable (.variable r) := by
  apply Nests.recoverable .variable
  intro start rest span
  simp only [Expr.marks, span_cons, span_nil] at span
  obtain ⟨_, last, rfl, ⟨rfl, kind⟩, rfl⟩ := span
  apply Regains.of_succ rfl
  intro n c here
  apply Reaches.of_next
  rw [here.next, kind]
  exact reference_regains (fun _ same => by simp [Expr.bare, same]) here

theorem this_recoverable (keyword : Reference) : Recoverable (.this keyword) := by
  apply Nests.recoverable .this
  intro start rest span
  simp only [Expr.marks, span_cons, span_nil] at span
  obtain ⟨_, last, rfl, ⟨rfl, kind⟩, rfl⟩ := span
  apply Regains.of_succ rfl
  intro n c here
  apply Reaches.of_next
  rw [here.next, kind]
  exact reference_regains (fun _ same => by simp [Expr.bare, same]) here

theorem super_recoverable (keyword : Reference) (method : Token) : Recoverable (.super keyword method) := by
  apply Nests.recoverable .super
  intro start rest span
  simp only [Expr.marks, span_cons, span_nil] at span
  obtain ⟨_, _, rfl, ⟨rfl, kind⟩, dot, _, rfl, dots, name, last, rfl, ⟨rfl, isName⟩, rfl⟩ := span
  apply Regains.of_succ rfl
  intro n c here
  apply Reaches.of_next
  rw [here.next, kind]
  apply Reaches.bind (advance_here here)
  intro _ dotted atDot
  apply Reaches.bind (expectSymbol_here _ atDot dots)
  intro _ before atName
  apply Reaches.bind (expect_here _ atName isName)
  intro method after given
  obtain ⟨rfl, there⟩ := given
  apply Reaches.bind (reference_here keyword.name there)
  rintro r finish ⟨same, ended⟩
  exact .pure ⟨by simp [Expr.bare, same], ended⟩

theorem grouping_recoverable {inner : Expr} (nests : Nests inner) (recoverable : Recoverable inner) :
    Recoverable (.grouping inner) := by
  apply Nests.recoverable (.grouping nests)
  intro start rest span
  simp only [Expr.marks, span_cons, span_append, span_nil] at span
  obtain ⟨t, _, rfl, opens, _, span, paren, last, rfl, closes, rfl⟩ := span
  have free : Free 1 (paren :: last) := .cons (by rw [closes.kind]; decide)
  apply Regains.of_succ rfl
  intro n c here
  apply Reaches.of_next
  rw [here.next, opens.kind]
  apply Reaches.bind (advance_here here)
  intro _ opened there
  apply Reaches.bind (recoverable.assignment span free there)
  rintro e' closing ⟨same, atParen⟩
  apply Reaches.bind (expectSymbol_here _ atParen closes)
  exact fun _ after there => .pure ⟨by simp [Expr.bare, same], there⟩

end Primaries

section Calls

variable {start rest : List Token}

/-- The arguments of a call are read back up to its closing parenthesis. -/
theorem arguments_regain {es : List Expr} (nonempty : es ≠ []) (recoverable : ∀ e ∈ es, Recoverable e)
    {paren : Token} (closes : paren.kind = .symbol .rightParen)
    (span : Span (Expr.listMarks es) start (paren :: rest)) {n before : Nat} {c : Cursor}
    (here : Here start c) :
    Reaches (arguments n before) c fun es' after =>
      Expr.bareList es' = Expr.bareList es ∧ Here (paren :: rest) after := by
  have free : Free 1 (paren :: rest) := .cons (by rw [closes]; decide)
  induction es generalizing start n before c with
  | nil => exact absurd rfl nonempty
  | cons e es ih =>
    obtain ⟨first, others⟩ := List.forall_mem_cons.mp recoverable
    cases n with
    | zero => exact .exhausted
    | succ n =>
      apply Reaches.bind (boundArity_here before _ here)
      intro _ bounded here
      cases es with
      | nil =>
        apply Reaches.bind (first.assignment span free here)
        rintro e' after ⟨same, there⟩
        apply Reaches.bind (accept_other_reaches there.at (by simp [closes]))
        rintro _ _ ⟨rfl, rfl⟩
        exact .pure ⟨by simp [Expr.bareList, same], there⟩
      | cons e'' es =>
        rw [listMarks_cons e (List.cons_ne_nil e'' es)] at span
        simp only [span_append, span_cons] at span
        obtain ⟨_, span, comma, _, rfl, separates, remaining⟩ := span
        apply Reaches.bind (first.assignment span (.cons (by rw [separates.kind]; decide)) here)
        rintro e' after ⟨same, there⟩
        apply Reaches.bind (accept_here there separates)
        rintro _ middle ⟨rfl, there⟩
        apply Reaches.bind (ih (List.cons_ne_nil e'' es) others remaining there)
        rintro es' last ⟨alike, there⟩
        exact .pure ⟨congrArg₂ List.cons same alike, there⟩

/-- The text of some arguments does not begin with the closing parenthesis. -/
theorem arguments_begin {es : List Expr} (nonempty : es ≠ []) (nests : ∀ e ∈ es, Nests e)
    (span : Span (Expr.listMarks es) start rest) : Begins opensExpression (start.map (·.kind)) := by
  cases es with
  | nil => exact absurd rfl nonempty
  | cons e es =>
    have first := nests e List.mem_cons_self
    cases es with
    | nil => exact (first.begins span).opens
    | cons e' es =>
      obtain ⟨_, span, _⟩ := span_append.mp span
      exact (first.begins span).opens

theorem listed_regain {es : List Expr} {paren : Token} (nests : ∀ e ∈ es, Nests e)
    (recoverable : ∀ e ∈ es, Recoverable e) (closes : paren.kind = .symbol .rightParen)
    (span : Span (Expr.listMarks es) start (paren :: rest)) {n : Nat} {c : Cursor} (here : Here start c) :
    Reaches (listUnless .rightParen (arguments n 0)) c fun es' after =>
      Expr.bareList es' = Expr.bareList es ∧ Here (paren :: rest) after := by
  apply Reaches.bind sees_reaches
  rintro _ c ⟨rfl, rfl⟩
  by_cases empty : es = []
  · subst empty
    obtain rfl := span_nil.mp span
    rw [if_pos (by simp [here.ahead, closes])]
    exact .pure ⟨rfl, here⟩
  · have begins := arguments_begin empty nests span
    have other : c.ahead.head?.any (·.kind = .symbol .rightParen) ≠ true := by
      intro seen
      rw [here.ahead] at seen
      cases start with
      | nil => cases seen
      | cons t start =>
        have kind : t.kind = .symbol .rightParen := by simpa using seen
        simp [Begins, kind, opensExpression, opensPrimary] at begins
    rw [if_neg other]
    exact arguments_regain empty recoverable closes span here

theorem call_recoverable {f : Expr} {paren : Token} {es : List Expr} (nests : Nests (.call f paren es))
    (tight : Rung.call.rank ≤ f.rank) (callee : Recoverable f) (inner : ∀ e ∈ es, Nests e)
    (arguments : ∀ e ∈ es, Recoverable e) : Recoverable (.call f paren es) := by
  apply nests.recoverable
  intro start rest span
  simp only [Expr.marks, span_cons, span_append, span_nil] at span
  obtain ⟨_, span, t, more, rfl, opens, _, list, paren, last, rfl, ⟨rfl, closes⟩, rfl⟩ := span
  have leads : Leads call callRest f start (t :: more) := callee span (k := .call) tight
  intro n c ok here goes_on
  apply leads here
  intro n f' c same there
  cases n with
  | zero => exact .exhausted
  | succ n =>
    apply Reaches.of_next
    rw [there.next, opens.kind]
    apply Reaches.bind (advance_here there)
    intro _ opened inside
    apply Reaches.bind (listed_regain inner arguments closes list inside)
    rintro es' closing ⟨alike, atParen⟩
    apply Reaches.bind (expect_here _ atParen closes)
    intro _ after given
    obtain ⟨rfl, finish⟩ := given
    exact goes_on _ _ after (by simp [Expr.bare, same, alike]) finish

theorem get_recoverable {o : Expr} {name : Token} (nests : Nests (.get o name))
    (tight : Rung.call.rank ≤ o.rank) (object : Recoverable o) : Recoverable (.get o name) := by
  apply nests.recoverable
  intro start rest span
  simp only [Expr.marks, span_cons, span_append, span_nil] at span
  obtain ⟨_, span, dot, more, rfl, dots, _, last, rfl, ⟨rfl, isName⟩, rfl⟩ := span
  have leads : Leads call callRest o start _ := object span (k := .call) tight
  intro n c ok here goes_on
  apply leads here
  intro n o' c same there
  cases n with
  | zero => exact .exhausted
  | succ n =>
    apply Reaches.of_next
    rw [there.next, dots.kind]
    apply Reaches.bind (advance_here there)
    intro _ dotted atName
    apply Reaches.bind (expect_here _ atName isName)
    intro _ after given
    obtain ⟨rfl, finish⟩ := given
    exact goes_on _ _ after (by simp [Expr.bare, same]) finish

end Calls

section Operators

theorem unary_recoverable {operator : Token} {e : Expr} (nests : Nests (.unary operator e))
    (sign : operator.kind ∈ [.symbol .bang, .symbol .minus]) (tight : Rung.unary.rank ≤ e.rank)
    (right : Recoverable e) : Recoverable (.unary operator e) := by
  apply nests.recoverable
  intro start rest span free
  simp only [Expr.marks, span_cons] at span
  obtain ⟨operator, more, rfl, ⟨rfl, _⟩, span⟩ := span
  have operand : Regains unary e more rest := right span (k := .unary) tight free
  apply Regains.of_succ rfl
  intro n c here
  have signed : Reaches (do advance; return Expr.unary operator (← Grammar.unary n)) c
      fun e' after => e'.bare = (Expr.unary operator e).bare ∧ Here rest after := by
    apply Reaches.bind (advance_here here)
    intro _ middle there
    apply Reaches.bind (operand there)
    rintro e' after ⟨same, ended⟩
    exact .pure ⟨by simp [Expr.bare, same], ended⟩
  apply Reaches.of_next
  rw [here.next]
  simp only [List.mem_cons, List.not_mem_nil, or_false] at sign
  rcases sign with bang | minus
  · rw [bang]
    exact signed
  · rw [minus]
    exact signed

theorem power_recoverable {l r : Expr} {operator : Token} (nests : Nests (.binary l operator r))
    (raises : operator.kind = .symbol .starStar) (tighter : Rung.power.rank < l.rank)
    (tight : Rung.power.rank ≤ r.rank) (left : Recoverable l) (right : Recoverable r) :
    Recoverable (.binary l operator r) := by
  apply nests.recoverable
  intro start rest span
  have rung : (Expr.binary l operator r).rung = .power := by simp [Expr.rung, raises, Tier.ofKind?]
  rw [rung]
  intro free
  simp only [Expr.marks, span_append, span_cons] at span
  obtain ⟨_, span, operator, more, rfl, ⟨rfl, _⟩, span'⟩ := span
  have base : Regains unary l start (operator :: more) :=
    left span (k := .unary) tighter (.cons (by rw [raises]; decide))
  have exponent : Regains power r more rest := right span' (k := .power) tight free
  apply Regains.of_succ rfl
  intro n c here
  apply Reaches.bind (base here)
  rintro l' middle ⟨same, there⟩
  apply Reaches.bind (accept_here there raises)
  rintro _ raised ⟨rfl, there⟩
  apply Reaches.bind (exponent there)
  rintro r' after ⟨alike, ended⟩
  exact .pure ⟨by simp [Expr.bare, same, alike], ended⟩

/-- An operator of the tier is there to go on with. -/
theorem operator_here {t : Tier} {operator : Token} {start : List Token} {c : Cursor}
    (chosen : Tier.ofKind? operator.kind = some t) (here : Here (operator :: start) c) :
    Reaches t.operator? c fun found after => found = some operator ∧ Here start after := by
  apply Reaches.of_next
  rw [here.next, if_pos chosen]
  apply Reaches.bind (advance_here here)
  exact fun _ after there => .pure ⟨rfl, there⟩

theorem operation_recoverable {t : Tier} {l r : Expr} {operator : Token} (nests : Nests (t.node l operator r))
    (chosen : Tier.ofKind? operator.kind = some t) (tight : t.rank ≤ l.rank) (tighter : t.rank < r.rank)
    (left : Recoverable l) (right : Recoverable r) : Recoverable (t.node l operator r) := by
  apply nests.recoverable
  intro start rest span
  have rung : (t.node l operator r).rung = .tier t := Rung.rank_injective (node_rank chosen l r)
  rw [rung]
  intro free
  rw [node_marks] at span
  simp only [span_append, span_cons] at span
  obtain ⟨_, span, operator, more, rfl, ⟨rfl, _⟩, span'⟩ := span
  have low : grip operator.kind < t.rank + 1 := by rw [grip_of_tier chosen]; exact Nat.lt_succ_self _
  have first : Leads (binary · t) (binaryRest · t) l start (operator :: more) :=
    left span (k := .tier t) tight (.cons low)
  have operand : Regains (operand · t) r more rest := by
    apply operand_regains (right span' _) free
    have next : (Rung.tier t).tighter.rank = t.rank + 1 := Rung.rank_tighter (by cases t <;> decide)
    omega
  intro n c ok here goes_on
  apply first here
  intro n l' c same there
  cases n with
  | zero => exact .exhausted
  | succ n =>
    apply Reaches.bind (operator_here chosen there)
    rintro _ middle ⟨rfl, there⟩
    apply Reaches.bind (operand there)
    rintro r' after ⟨alike, ended⟩
    exact goes_on n _ after (by rw [node_bare, node_bare, same, alike]) ended

theorem conditional_recoverable {e t f : Expr} (nests : Nests (.conditional e t f))
    (tighter : Rung.conditional.rank < e.rank) (tight : Rung.conditional.rank ≤ f.rank)
    (condition : Recoverable e) (thenBranch : Recoverable t) (elseBranch : Recoverable f) :
    Recoverable (.conditional e t f) := by
  apply nests.recoverable
  intro start rest span free
  simp only [Expr.marks, span_append, span_cons] at span
  obtain ⟨_, span, question, _, rfl, asks, _, span', colon, more, rfl, parts, span''⟩ := span
  have tested : Regains (binary · .or_) e start (question :: _) :=
    binary_regains (condition span (k := .tier .or_) tighter (.cons (by rw [asks.kind]; decide)))
      (.cons (by rw [asks.kind]; decide))
  have chosen := thenBranch.assignment span' (.cons (by rw [parts.kind]; decide))
  have otherwise : Regains conditional f more rest := elseBranch span'' (k := .conditional) tight free
  apply Regains.of_succ rfl
  intro n c here
  apply Reaches.bind (tested here)
  rintro e' middle ⟨same, there⟩
  apply Reaches.bind (accept_here there asks)
  rintro _ asked ⟨rfl, there⟩
  apply Reaches.bind (chosen there)
  rintro t' closing ⟨same', there⟩
  apply Reaches.bind (expectSymbol_here _ there parts)
  intro _ last there
  apply Reaches.bind (otherwise there)
  rintro f' after ⟨same'', ended⟩
  exact .pure ⟨by simp [Expr.bare, same, same', same''], ended⟩

end Operators

section Assignments

/-- What is read back as a conditional before an equals sign becomes the target of the assignment. -/
theorem assignment_regains {target e result : Expr} {start more rest : List Token} {equal : Token}
    (read : Regains conditional target start (equal :: more)) (equals : equal.kind = .symbol .equal)
    (value : Regains assignment e more rest)
    (assigns : ∀ {target' e' c}, target'.bare = target.bare → e'.bare = e.bare → Here rest c →
      Reaches (assignTo target' equal e') c fun result' after =>
        result'.bare = result.bare ∧ Here rest after) :
    Regains assignment result start rest := by
  apply Regains.of_succ rfl
  intro n c here
  apply Reaches.bind (read here)
  rintro target' middle ⟨same, there⟩
  apply Reaches.bind (accept_here there equals)
  rintro _ after ⟨rfl, there⟩
  apply Reaches.bind (value there)
  rintro e' last ⟨alike, ended⟩
  exact assigns same alike ended

theorem assign_recoverable {r : Reference} {e : Expr} (nests : Nests (.assign r e)) (value : Recoverable e) :
    Recoverable (.assign r e) := by
  apply nests.recoverable
  intro start rest span free
  simp only [Expr.marks, span_cons] at span
  obtain ⟨_, _, rfl, ⟨rfl, named⟩, equal, more, rfl, equals, span⟩ := span
  have name : Span (Expr.variable r).marks (r.name :: equal :: more) (equal :: more) := by
    simp [Expr.marks, Mark.Fits, named]
  have read : Regains conditional (.variable r) _ (equal :: more) :=
    variable_recoverable r name (k := .conditional) (Nat.le_add_right 2 10)
      (.cons (by rw [equals.kind]; decide))
  apply assignment_regains read equals (value.assignment span free)
  intro target' e' c same alike here
  cases target' with
  | «variable» r' =>
    have names : r'.name = r.name := by simpa [Expr.bare] using same
    apply Reaches.bind (reference_here r'.name here)
    rintro _ after ⟨given, there⟩
    exact .pure ⟨by simp [Expr.bare, given, names, alike], there⟩
  | _ => simp [Expr.bare] at same

theorem set_recoverable {o : Expr} {name : Token} {e : Expr} (nests : Nests (.set o name e)) (inner : Nests o)
    (tight : Rung.call.rank ≤ o.rank) (object : Recoverable o) (value : Recoverable e) :
    Recoverable (.set o name e) := by
  apply nests.recoverable
  intro start rest span free
  simp only [Expr.marks, span_append, span_cons] at span
  obtain ⟨_, span, dot, _, rfl, dots, name, _, rfl, ⟨rfl, named⟩, equal, more, rfl, equals, span'⟩ := span
  have property : Span (Expr.get o name).marks start (equal :: more) := by
    simp only [Expr.marks, span_append, span_cons, span_nil]
    exact ⟨_, span, dot, _, rfl, dots, name, _, rfl, ⟨rfl, named⟩, rfl⟩
  have read : Regains conditional (.get o name) start (equal :: more) :=
    get_recoverable (.get inner tight) tight object property (k := .conditional) (Nat.le_add_right 2 9)
      (.cons (by rw [equals.kind]; decide))
  apply assignment_regains read equals (value.assignment span' free)
  intro target' e' c same alike here
  cases target' with
  | get o' name' =>
    obtain ⟨objects, rfl⟩ : o'.bare = o.bare ∧ name' = name := by simpa [Expr.bare] using same
    exact .pure ⟨by simp [Expr.bare, objects, alike], here⟩
  | _ => simp [Expr.bare] at same

end Assignments

/-- An expression that nests is read back from its text. -/
theorem recoverable_of_nests {e : Expr} (nests : Nests e) : Recoverable e := by
  induction nests with
  | literal => exact literal_recoverable _
  | grouping inner ih => exact grouping_recoverable inner ih
  | «variable» => exact variable_recoverable _
  | this => exact this_recoverable _
  | super => exact super_recoverable _ _
  | call callee tight arguments ih ih' =>
    exact call_recoverable (.call callee tight arguments) tight ih arguments ih'
  | get object tight ih => exact get_recoverable (.get object tight) tight ih
  | unary sign right tight ih => exact unary_recoverable (.unary sign right tight) sign tight ih
  | power raises left tighter right tight ih ih' =>
    exact power_recoverable (.power raises left tighter right tight) raises tighter tight ih ih'
  | operation chosen left tight right tighter ih ih' =>
    exact operation_recoverable (.operation chosen left tight right tighter) chosen tight tighter ih ih'
  | conditional condition tighter thenBranch elseBranch tight ih ih' ih'' =>
    exact conditional_recoverable (.conditional condition tighter thenBranch elseBranch tight) tighter tight
      ih ih' ih''
  | assign value ih => exact assign_recoverable (.assign value) ih
  | set object tight value ih ih' => exact set_recoverable (.set object tight value) object tight ih ih'

/-- The tree that is read without a fault nests, and its text is the tokens before the end marker. No other
tree does both, but for the identities of its references. -/
theorem expression_is_the_only_tree_of_its_tokens {tokens : List Token} {e : Expr}
    (read : readExpression tokens = (some e, [])) :
    let text := tokens.takeWhile (·.kind ≠ .endOfFile)
    List.Forall₂ Mark.Fits e.marks text ∧ Nests e ∧
      ∀ e', List.Forall₂ Mark.Fits e'.marks text → Nests e' → e'.bare = e.bare := by
  intro text
  obtain ⟨after, given, finished, clean⟩ := assignment_of_read read
  have closed := start_closed tokens
  have rendered := (((expressionsRender (budget tokens)).assignment closed).ok_of given).2 (by
    rw [Cursor.faults, clean]
    rfl)
  obtain ⟨own, split, fits⟩ := rendered.span
  rw [finished, List.append_nil] at split
  subst split
  refine ⟨fits, rendered.nests, ?_⟩
  intro e' written nests
  have here : Here text (.start tokens) := ⟨rfl, closed⟩
  have span : Span e'.marks text [] := ⟨text, (List.append_nil _).symm, written⟩
  have regained : Regains assignment e' text [] :=
    (recoverable_of_nests nests).assignment span (Loose.cons (by decide))
  exact ((regained here).ok_of given).1.symm

/-- A sign binds its operand before a power does, and a difference is taken from the left: the other tree
with the text of this expression does not nest. -/
theorem sign_then_power_then_differences :
    let sign : Token := ⟨.symbol .minus, "-", 1⟩
    let raised : Token := ⟨.symbol .starStar, "**", 1⟩
    let name (s : String) : Token := ⟨.identifier, s, 1⟩
    let text := [sign, name "a", raised, name "b", sign, name "c", sign, name "d"]
    let power : Expr := .binary (.unary sign (.variable ⟨0, name "a"⟩)) raised (.variable ⟨1, name "b"⟩)
    let c : Expr := .variable ⟨2, name "c"⟩
    let d : Expr := .variable ⟨3, name "d"⟩
    let e : Expr := .binary (.binary power sign c) sign d
    let other : Expr := .binary power sign (.binary c sign d)
    readExpression (text ++ [.endOfFile 1]) = (some e, []) ∧ List.Forall₂ Mark.Fits e.marks text ∧ Nests e ∧
      List.Forall₂ Mark.Fits other.marks text ∧ ¬ Nests other := by
  intro sign raised name text power c d e other
  have read : readExpression (text ++ [.endOfFile 1]) = (some e, []) := by cbv
  obtain ⟨fits, nests, only⟩ := expression_is_the_only_tree_of_its_tokens read
  have written : List.Forall₂ Mark.Fits other.marks text := by
    simp [other, power, c, d, text, Expr.marks, Mark.Fits, name]
  refine ⟨read, fits, nests, written, fun nests' => ?_⟩
  have same := only other written nests'
  simp [e, other, c, d, Expr.bare] at same

end LoxLang.Grammar
