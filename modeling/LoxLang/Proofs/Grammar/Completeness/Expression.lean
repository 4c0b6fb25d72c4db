import LoxLang.Proofs.Grammar.Completeness.Reaching

/-! Completeness of the rules of expressions, one lemma for each way in which a phrase is put
together. A phrase with nothing added to it, such as a power without an exponent, passes on what its
only part yields; that is how a call before an equals sign comes back as the target it is. -/
namespace LoxLang.Grammar

variable {ts middle other rest : List Token.Kind} {shape : Expr → Prop}

theorem Loose.head_ne {bound : Nat} {kind : Token.Kind} (loose : Loose bound rest)
    (tight : bound ≤ grip kind) : rest.head? ≠ some kind := fun head =>
  absurd (loose kind head) (Nat.not_lt_of_le tight)

/-- A rule without budget is exhausted, so only the others matter. -/
theorem Yields.of_succ {α : Type} {rule : Nat → Rule α} {shape : α → Prop}
    (zero : rule 0 = exhausted) (succ : ∀ {n reported c}, At ts reported c →
      Reaches (rule (n + 1)) c fun a after => At rest reported after ∧ shape a) :
    Yields rule ts rest shape := by
  intro n reported c here
  cases n with
  | zero =>
    rw [zero]
    exact .exhausted
  | succ n => exact succ here

section Primary

variable {kind : Token.Kind}

theorem token_reaches {e : Expr} {reported : List SyntaxError} {c : Cursor}
    (here : At (kind :: rest) reported c) (open_ : kind ≠ .endOfFile) :
    Reaches (do advance; return e) c fun _ after => At rest reported after ∧ True := by
  apply Reaches.bind (advance_reaches here open_)
  exact fun _ after there => .pure ⟨there, trivial⟩

theorem named_reaches {build : Reference → Expr} {reported : List SyntaxError} {c : Cursor}
    (name : Token) (here : At (kind :: rest) reported c) (open_ : kind ≠ .endOfFile) :
    Reaches (do advance; return build (← reference name)) c
      fun e after => At rest reported after ∧ ∃ r, e = build r := by
  apply Reaches.bind (advance_reaches here open_)
  intro _ after there
  apply Reaches.bind (reference_reaches name there)
  exact fun r _ there => .pure ⟨there, r, rfl⟩

theorem primary_number (value : Float) : Accepts primary (.number value :: rest) rest := by
  apply Yields.of_succ rfl
  intro n reported c here
  apply Reaches.of_next
  rw [here.next]
  exact token_reaches here nofun

theorem primary_string (text : String) : Accepts primary (.string text :: rest) rest := by
  apply Yields.of_succ rfl
  intro n reported c here
  apply Reaches.of_next
  rw [here.next]
  exact token_reaches here nofun

theorem primary_constant {word : Keyword} (constant : word ∈ [.true_, .false_, .nil_]) :
    Accepts primary (.keyword word :: rest) rest := by
  apply Yields.of_succ rfl
  intro n reported c here
  apply Reaches.of_next
  rw [here.next]
  simp only [List.mem_cons, List.not_mem_nil, or_false] at constant
  rcases constant with rfl | rfl | rfl <;> exact token_reaches here nofun

theorem primary_this : Accepts primary (.keyword .this_ :: rest) rest := by
  apply Yields.of_succ rfl
  intro n reported c here
  apply Reaches.of_next
  rw [here.next]
  exact (named_reaches _ here nofun).mono fun _ _ reached => ⟨reached.1, trivial⟩

theorem primary_name :
    Yields primary (.identifier :: rest) rest fun e => ∃ r, e = .variable r := by
  apply Yields.of_succ rfl
  intro n reported c here
  apply Reaches.of_next
  rw [here.next]
  exact named_reaches _ here nofun

theorem primary_super :
    Accepts primary (.keyword .super_ :: .symbol .dot :: .identifier :: rest) rest := by
  apply Yields.of_succ rfl
  intro n reported c here
  apply Reaches.of_next
  rw [here.next]
  apply Reaches.bind (advance_reaches here nofun)
  intro _ dotted there
  apply Reaches.bind (expectSymbol_reaches _ there)
  intro _ named there
  apply Reaches.bind (expectName_reaches _ there)
  intro method last there
  apply Reaches.bind (reference_reaches _ there)
  exact fun _ after there => .pure ⟨there, trivial⟩

theorem primary_grouping (inner : Accepts assignment ts (.symbol .rightParen :: rest)) :
    Accepts primary (.symbol .leftParen :: ts) rest := by
  apply Yields.of_succ rfl
  intro n reported c here
  apply Reaches.of_next
  rw [here.next]
  apply Reaches.bind (advance_reaches here nofun)
  intro _ opened there
  apply Reaches.bind (inner there)
  intro e closing ⟨there, _⟩
  apply Reaches.bind (expectSymbol_reaches _ there)
  exact fun _ after there => .pure ⟨there, trivial⟩

end Primary

section Calls

/-- Reading on behind a callee goes from these tokens to the others, whatever the callee is. -/
def Continues (ts rest : List Token.Kind) : Prop :=
  ∀ ⦃n callee reported c⦄ ⦃ok : Expr → Cursor → Prop⦄, At ts reported c →
    (∀ n callee c, At rest reported c → Reaches (callRest n callee) c ok) →
    Reaches (callRest n callee) c ok

/-- A call is read up to where its suffixes end, if what follows is read as more of them. -/
def Calls (ts rest : List Token.Kind) : Prop :=
  ∀ ⦃n reported c⦄ ⦃ok : Expr → Cursor → Prop⦄, At ts reported c →
    (∀ n callee c, At rest reported c → Reaches (callRest n callee) c ok) →
    Reaches (call n) c ok

theorem callRest_reaches {n : Nat} {callee : Expr} {reported : List SyntaxError} {c : Cursor}
    (loose : Loose 10 rest) (here : At rest reported c) :
    Reaches (callRest n callee) c fun e after => At rest reported after ∧ e = callee := by
  cases n with
  | zero => exact .exhausted
  | succ n =>
    have low := loose _ here.head
    apply Reaches.of_next
    split
    · next opening => simp [opening, grip] at low
    · next dot => simp [dot, grip] at low
    · exact .pure ⟨here, rfl⟩

theorem continues_invocation {count : Nat} (few : count ≤ 255)
    (list : ts = .symbol .rightParen :: rest ∨ ts.head? ≠ some (.symbol .rightParen) ∧
      ∀ before, before + count ≤ 255 →
        Accepts (arguments · before) ts (.symbol .rightParen :: rest)) :
    Continues (.symbol .leftParen :: ts) rest := by
  intro n callee reported c ok here goes_on
  have listed : Accepts (fun n => listUnless .rightParen (arguments n 0)) ts
      (.symbol .rightParen :: rest) := by
    obtain rfl | ⟨nonempty, accepts⟩ := list
    · exact listUnless_skips
    · exact listUnless_accepts nonempty (accepts 0 (by omega))
  cases n with
  | zero => exact .exhausted
  | succ n =>
    apply Reaches.of_next
    rw [here.next]
    apply Reaches.bind (advance_reaches here nofun)
    intro _ opened there
    apply Reaches.bind (listed there)
    intro arguments closing ⟨there, _⟩
    apply Reaches.bind (expect_reaches _ there nofun)
    exact fun paren after there => goes_on _ _ after there

theorem property_reaches {n : Nat} {callee : Expr} {reported : List SyntaxError} {c : Cursor}
    {ok : Expr → Cursor → Prop} (here : At (.symbol .dot :: .identifier :: rest) reported c)
    (goes_on : ∀ n name c, At rest reported c → Reaches (callRest n (.get callee name)) c ok) :
    Reaches (callRest n callee) c ok := by
  cases n with
  | zero => exact .exhausted
  | succ n =>
    apply Reaches.of_next
    rw [here.next]
    apply Reaches.bind (advance_reaches here nofun)
    intro _ named there
    apply Reaches.bind (expectName_reaches _ there)
    exact fun name after there => goes_on n name after there

theorem continues_property : Continues (.symbol .dot :: .identifier :: rest) rest := by
  intro n callee reported c ok here goes_on
  exact property_reaches here fun n _ c => goes_on n _ c

theorem continues_refl : Continues rest rest := by
  intro n callee reported c ok here goes_on
  exact goes_on n callee c here

theorem Continues.trans (first : Continues ts other) (others : Continues other rest) :
    Continues ts rest := by
  intro n callee reported c ok here goes_on
  apply first here
  exact fun n callee middle there => others there goes_on

theorem calls_of_primary (callee : Accepts primary ts other) (suffixes : Continues other rest) :
    Calls ts rest := by
  intro n reported c ok here goes_on
  cases n with
  | zero => exact .exhausted
  | succ n =>
    apply Reaches.bind (callee here)
    exact fun e after ⟨there, _⟩ => suffixes there goes_on

theorem Calls.accepts (calls : Calls ts rest) (loose : Loose 10 rest) : Accepts call ts rest := by
  intro n reported c here
  apply calls here
  intro n callee after there
  exact (callRest_reaches loose there).mono fun _ _ ⟨last, _⟩ => ⟨last, trivial⟩

/-- A variable that nothing is added to. -/
theorem call_variable (loose : Loose 10 rest) :
    Yields call (.identifier :: rest) rest fun e => ∃ r, e = .variable r := by
  apply Yields.of_succ rfl
  intro n reported c here
  apply Reaches.bind (primary_name here)
  rintro _ after ⟨there, r, rfl⟩
  exact (callRest_reaches loose there).mono fun _ _ ⟨last, same⟩ => ⟨last, r, same⟩

/-- A call that ends in a property. -/
theorem call_property (loose : Loose 10 rest)
    (object : Calls ts (.symbol .dot :: .identifier :: rest)) :
    Yields call ts rest fun e => ∃ object name, e = .get object name := by
  intro n reported c here
  apply object here
  intro n callee middle there
  apply property_reaches there
  intro n name last there
  exact (callRest_reaches loose there).mono fun _ _ ⟨last, same⟩ => ⟨last, callee, name, same⟩

end Calls

section Operators

theorem unary_sign {sign : Symbol} (signs : sign ∈ [.bang, .minus]) (right : Accepts unary ts rest) :
    Accepts unary (.symbol sign :: ts) rest := by
  apply Yields.of_succ rfl
  intro n reported c here
  have signed : Reaches (do advance; return Expr.unary c.next (← Grammar.unary n)) c
      fun _ after => At rest reported after ∧ True := by
    apply Reaches.bind (advance_reaches here nofun)
    intro _ middle there
    apply Reaches.bind (right there)
    exact fun _ after reached => .pure reached
  apply Reaches.of_next
  rw [here.next]
  simp only [List.mem_cons, List.not_mem_nil, or_false] at signs
  rcases signs with rfl | rfl <;> exact signed

theorem unary_of_call (begins : Begins opensPrimary ts) (operand : Yields call ts rest shape) :
    Yields unary ts rest shape := by
  apply Yields.of_succ rfl
  intro n reported c here
  unfold Begins at begins
  rw [here.head] at begins
  apply Reaches.of_next
  split
  · next sign => simp [sign, opensPrimary] at begins
  · next sign => simp [sign, opensPrimary] at begins
  · exact operand here

theorem power_of_unary (loose : Loose 9 rest) (base : Yields unary ts rest shape) :
    Yields power ts rest shape := by
  apply Yields.of_succ rfl
  intro n reported c here
  apply Reaches.bind (base here)
  intro e after ⟨there, shaped⟩
  apply Reaches.bind (accept_other_reaches there (loose.head_ne (by decide)))
  rintro _ _ ⟨rfl, rfl⟩
  exact .pure ⟨there, shaped⟩

theorem power_exponent (base : Accepts unary ts (.symbol .starStar :: other))
    (exponent : Accepts power other rest) : Accepts power ts rest := by
  apply Yields.of_succ rfl
  intro n reported c here
  apply Reaches.bind (base here)
  intro e middle ⟨there, _⟩
  apply Reaches.bind (accept_reaches there nofun)
  rintro _ raised ⟨operator, rfl, _, there⟩
  apply Reaches.bind (exponent there)
  exact fun _ after reached => .pure reached

variable {t : Tier}

theorem operation_reaches {operator : Token.Kind} {reported : List SyntaxError} {c : Cursor}
    (member : operator ∈ t.operators) (here : At (operator :: rest) reported c) :
    Reaches t.operator? c fun found after => (∃ t, found = some t) ∧ At rest reported after := by
  have open_ : operator ≠ .endOfFile := by
    rintro rfl
    have found := Tier.ofKind_of_mem member
    cases found
  apply Reaches.of_next
  rw [here.next, if_pos (Tier.ofKind_of_mem member)]
  apply Reaches.bind (advance_reaches here open_)
  exact fun _ after there => .pure ⟨⟨_, rfl⟩, there⟩

theorem no_operation_reaches {reported : List SyntaxError} {c : Cursor} (loose : Loose t.rank rest)
    (here : At rest reported c) :
    Reaches t.operator? c fun found after => found = none ∧ after = c := by
  apply Reaches.of_next
  have other : Tier.ofKind? c.next.kind ≠ some t := by
    intro found
    have low := loose _ here.head
    rw [grip_of_tier found] at low
    exact Nat.lt_irrefl _ low
  rw [if_neg other]
  exact .pure ⟨rfl, rfl⟩

theorem binaryRest_done (left : Expr) (loose : Loose t.rank rest) :
    Yields (binaryRest · t left) rest rest fun e => e = left := by
  apply Yields.of_succ rfl
  intro n reported c here
  apply Reaches.bind (no_operation_reaches loose here)
  rintro _ _ ⟨rfl, rfl⟩
  exact .pure ⟨here, rfl⟩

theorem binaryRest_more {operator : Token.Kind} (left : Expr) (member : operator ∈ t.operators)
    (right : Accepts (operand · t) ts other)
    (others : ∀ left, Accepts (binaryRest · t left) other rest) :
    Accepts (binaryRest · t left) (operator :: ts) rest := by
  apply Yields.of_succ rfl
  intro n reported c here
  apply Reaches.bind (operation_reaches member here)
  rintro _ middle ⟨⟨found, rfl⟩, there⟩
  apply Reaches.bind (right there)
  exact fun e after ⟨there, _⟩ => others _ there

theorem binary_of_operand (loose : Loose t.rank rest) (only : Yields (operand · t) ts rest shape) :
    Yields (binary · t) ts rest shape := by
  apply Yields.of_succ rfl
  intro n reported c here
  apply Reaches.bind (only here)
  intro e after ⟨there, shaped⟩
  exact (binaryRest_done e loose there).mono fun _ _ ⟨last, same⟩ => ⟨last, same ▸ shaped⟩

theorem binary_of_operands (first : Accepts (operand · t) ts other)
    (others : ∀ left, Accepts (binaryRest · t left) other rest) :
    Accepts (binary · t) ts rest := by
  apply Yields.of_succ rfl
  intro n reported c here
  apply Reaches.bind (first here)
  exact fun e after ⟨there, _⟩ => others e there

theorem operand_of_tighter {tighter : Tier} (below : t.tighter? = some tighter)
    (accepts : Yields (binary · tighter) ts rest shape) : Yields (operand · t) ts rest shape := by
  apply Yields.of_succ rfl
  intro n reported c here
  simp only [operand, below]
  exact accepts here

theorem operand_of_power (accepts : Yields power ts rest shape) :
    Yields (operand · .factor) ts rest shape := by
  apply Yields.of_succ rfl
  intro n reported c here
  exact accepts here

/-- An operand without operators around it is read alike at every tier. -/
theorem binary_of_power (loose : Loose 3 rest) (accepts : Yields power ts rest shape) :
    Yields (binary · .or_) ts rest shape := by
  have at_factor := binary_of_operand (loose.mono (by decide)) (operand_of_power accepts)
  have at_term := binary_of_operand (loose.mono (by decide))
    (operand_of_tighter (t := .term) rfl at_factor)
  have at_comparison := binary_of_operand (loose.mono (by decide))
    (operand_of_tighter (t := .comparison) rfl at_term)
  have at_equality := binary_of_operand (loose.mono (by decide))
    (operand_of_tighter (t := .equality) rfl at_comparison)
  have at_and := binary_of_operand (loose.mono (by decide))
    (operand_of_tighter (t := .and_) rfl at_equality)
  exact binary_of_operand (loose.mono (by decide)) (operand_of_tighter rfl at_and)

end Operators

section Loosest

theorem conditional_of_or (loose : Loose 2 rest) (condition : Yields (binary · .or_) ts rest shape) :
    Yields conditional ts rest shape := by
  apply Yields.of_succ rfl
  intro n reported c here
  apply Reaches.bind (condition here)
  intro e after ⟨there, shaped⟩
  apply Reaches.bind (accept_other_reaches there (loose.head_ne (by decide)))
  rintro _ _ ⟨rfl, rfl⟩
  exact .pure ⟨there, shaped⟩

theorem conditional_branches (condition : Accepts (binary · .or_) ts (.symbol .question :: middle))
    (thenBranch : Accepts assignment middle (.symbol .colon :: other))
    (elseBranch : Accepts conditional other rest) : Accepts conditional ts rest := by
  apply Yields.of_succ rfl
  intro n reported c here
  apply Reaches.bind (condition here)
  intro e questioned ⟨there, _⟩
  apply Reaches.bind (accept_reaches there nofun)
  rintro _ chosen ⟨question, rfl, _, there⟩
  apply Reaches.bind (thenBranch there)
  intro thenValue colon ⟨there, _⟩
  apply Reaches.bind (expectSymbol_reaches _ there)
  intro _ left there
  apply Reaches.bind (elseBranch there)
  exact fun _ after reached => .pure reached

/-- What stands before an equals sign is read as a conditional. -/
theorem conditional_of_call (loose : Loose 2 rest) (begins : Begins opensPrimary ts)
    (accepts : Yields call ts rest shape) : Yields conditional ts rest shape :=
  conditional_of_or loose (binary_of_power (loose.mono (by decide))
    (power_of_unary (loose.mono (by decide)) (unary_of_call begins accepts)))

theorem assignment_of_conditional (loose : Loose 1 rest) (e : Accepts conditional ts rest) :
    Accepts assignment ts rest := by
  apply Yields.of_succ rfl
  intro n reported c here
  apply Reaches.bind (e here)
  intro e after ⟨there, _⟩
  apply Reaches.bind (accept_other_reaches there (loose.head_ne (by decide)))
  rintro _ _ ⟨rfl, rfl⟩
  exact .pure ⟨there, trivial⟩

/-- What can be assigned to. -/
def IsTarget (e : Expr) : Prop := (∃ r, e = .variable r) ∨ ∃ object name, e = .get object name

theorem assignment_assign (target : Yields conditional ts (.symbol .equal :: other) IsTarget)
    (value : Accepts assignment other rest) : Accepts assignment ts rest := by
  apply Yields.of_succ rfl
  intro n reported c here
  apply Reaches.bind (target here)
  intro e equals ⟨there, assignable⟩
  apply Reaches.bind (accept_reaches there nofun)
  rintro _ assigned ⟨_, rfl, _, there⟩
  apply Reaches.bind (value there)
  intro v last ⟨there, _⟩
  obtain ⟨r, rfl⟩ | ⟨object, name, rfl⟩ := assignable
  · apply Reaches.bind (reference_reaches _ there)
    exact fun _ after there => .pure ⟨there, trivial⟩
  · exact .pure ⟨there, trivial⟩

theorem arguments_last {before : Nat} (few : before + 1 ≤ 255)
    (closing : rest.head? = some (.symbol .rightParen)) (e : Accepts assignment ts rest) :
    Accepts (arguments · before) ts rest := by
  apply Yields.of_succ rfl
  intro n reported c here
  apply Reaches.bind (boundArity_reaches _ few)
  rintro _ _ rfl
  apply Reaches.bind (e here)
  intro first after ⟨there, _⟩
  have other : rest.head? ≠ some (.symbol .comma) := by
    rw [closing]
    nofun
  apply Reaches.bind (accept_other_reaches there other)
  rintro _ _ ⟨rfl, rfl⟩
  exact .pure ⟨there, trivial⟩

theorem arguments_more {before : Nat} (few : before + 1 ≤ 255)
    (e : Accepts assignment ts (.symbol .comma :: other))
    (others : Accepts (arguments · (before + 1)) other rest) :
    Accepts (arguments · before) ts rest := by
  apply Yields.of_succ rfl
  intro n reported c here
  apply Reaches.bind (boundArity_reaches _ few)
  rintro _ _ rfl
  apply Reaches.bind (e here)
  intro first middle ⟨there, _⟩
  apply Reaches.bind (accept_reaches there nofun)
  rintro _ after ⟨_, rfl, _, there⟩
  apply Reaches.bind (others there)
  exact fun _ after reached => .pure reached

end Loosest

end LoxLang.Grammar
