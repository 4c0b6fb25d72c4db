import LoxLang.Proofs.Grammar.Building.Expression
import LoxLang.Proofs.Grammar.Rendering

/-! What is read renders its tokens. Where a rule of expressions reports nothing, the tokens that it has
stepped over are the text of the tree that it gives, and that tree nests and is as tight as the rule. Only a
fault can part the two: what stood before an equals sign is left out when it is no target. -/
namespace LoxLang.Grammar
open Cursor

variable {α β : Type}

/-- However the rule ends, it has read on from this cursor; `ok` holds for a result without a new fault. -/
def Clean (rule : Rule α) (c : Cursor) (ok : α → Cursor → Prop) : Prop :=
  Advances rule c fun a after => after.faults = c.faults → ok a after

namespace Clean

variable {rule : Rule α} {next : α → Rule β} {c : Cursor} {ok ok' : α → Cursor → Prop}
  {done : β → Cursor → Prop}

theorem mono (clean : Clean rule c ok) (weaken : ∀ a after, Onward c after → ok a after → ok' a after) :
    Clean rule c ok' :=
  Advances.mono clean fun a after onward holds same => weaken a after onward (holds same)

theorem pure {a : α} (holds : ok a c) : Clean (Pure.pure a : Rule α) c ok := Advances.pure fun _ => holds

theorem exhausted : Clean (Grammar.exhausted : Rule α) c ok := Advances.exhausted

theorem reject {cause : SyntaxError.Cause} {found : Token} :
    Clean (Grammar.reject cause found : Rule α) c ok :=
  Advances.reject

/-- A fault that is reported spoils the rest. -/
theorem report {cause : SyntaxError.Cause} {found : Token} {rest : Rule β}
    (rests : ∀ after, Advances rest after fun _ _ => True) :
    Clean (do Grammar.report cause found; rest) c done := by
  apply Advances.bind (.of_reads (report_reads cause found c))
  rintro _ _ _ rfl
  apply (rests _).mono
  intro b last onward _ same
  have more := onward.faults_le
  simp only [Cursor.faults, List.length_append, List.length_singleton] at more same
  omega

/-- A sequence without a new fault has none in either part. -/
theorem bind (first : Advances rule c ok)
    (rest : ∀ a after, Onward c after → ok a after → Clean (next a) after done) :
    Clean (rule >>= next) c done := by
  apply Advances.bind first
  intro a after onward holds
  apply Advances.mono (rest a after onward holds)
  intro b last further finish same
  have before := onward.faults_le
  have later := further.faults_le
  exact finish (by omega)

/-- What holds of the first part where it reports nothing may be assumed at the end. -/
theorem andThen (first : Clean rule c ok)
    (rest : ∀ a after, Onward c after → Clean (next a) after fun b last => ok a after → done b last) :
    Clean (rule >>= next) c done := by
  apply Advances.bind first
  intro a after onward holds
  apply Advances.mono (rest a after onward)
  intro b last further finish same
  have before := onward.faults_le
  have later := further.faults_le
  exact finish (by omega) (holds (by omega))

theorem of_next {rest : Token → Rule α} (clean : Clean (rest c.next) c ok) :
    Clean (Grammar.next >>= rest) c ok := Advances.of_next clean

end Clean

/-- The rule gives a tree that renders what it has stepped over. -/
def Renders (rule : Rule Expr) (k : Rung) (c : Cursor) : Prop :=
  Clean rule c fun e after => Rendered k e c.ahead after.ahead

/-- The rules of expressions render what they read with this budget. -/
structure ExpressionsRender (n : Nat) : Prop where
  assignment : ∀ {c}, Closed c → Renders (assignment n) .assignment c
  conditional : ∀ {c}, Closed c → Renders (conditional n) .conditional c
  binary : ∀ {c t}, Closed c → Renders (binary n t) (.tier t) c
  binaryRest : ∀ {c t left}, Closed c → Clean (binaryRest n t left) c fun e after =>
    ∀ start, Rendered (.tier t) left start c.ahead → Rendered (.tier t) e start after.ahead
  operand : ∀ {c t}, Closed c → Renders (operand n t) (Rung.tier t).tighter c
  power : ∀ {c}, Closed c → Renders (power n) .power c
  unary : ∀ {c}, Closed c → Renders (unary n) .unary c
  call : ∀ {c}, Closed c → Renders (call n) .call c
  callRest : ∀ {c callee}, Closed c → Clean (callRest n callee) c fun e after =>
    ∀ start, Rendered .call callee start c.ahead → Rendered .call e start after.ahead
  arguments : ∀ {c before}, Closed c → Clean (arguments n before) c fun es after =>
    es ≠ [] ∧ (∀ e ∈ es, Nests e) ∧ Span (Expr.listMarks es) c.ahead after.ahead
  primary : ∀ {c}, Closed c → Renders (primary n) .primary c

theorem Rung.tier_lt_tighter (t : Tier) : t.rank < (Rung.tier t).tighter.rank := by cases t <;> decide

/-- What an expression with a property outermost asks of the object. -/
theorem nests_get {o : Expr} {name : Token} (nests : Nests (.get o name)) :
    Nests o ∧ Rung.call.rank ≤ o.rank := by
  generalize same : Expr.get o name = e at nests
  cases nests with
  | get object tight =>
    cases same
    exact ⟨object, tight⟩
  | @operation t => cases t <;> cases same
  | _ => cases same

theorem Rendered.looser {k j : Rung} {e : Expr} {start rest : List Token} (rendered : Rendered k e start rest)
    (le : j.rank ≤ k.rank) : Rendered j e start rest :=
  ⟨rendered.nests, Nat.le_trans le rendered.tight, rendered.span⟩

namespace ExpressionsRender

variable {n : Nat} (all : ExpressionsRender n) {c : Cursor} (closed : Closed c)
include all closed

theorem assignment_succ : Renders (Grammar.assignment (n + 1)) .assignment c := by
  apply Clean.andThen (all.conditional closed)
  intro target middle onward
  have there := onward.closed closed
  apply Clean.bind (.of_reads (accept_reads _ middle))
  intro taken equals further accepted
  cases accepted with
  | left => exact .pure fun read => read.looser (by decide)
  | @taken sign equals matched stepped =>
    apply Clean.andThen (all.assignment (further.closed there))
    intro value last _
    cases target with
    | «variable» r =>
      apply Clean.bind (.of_reads (reference_reads r.name last))
      rintro _ _ _ ⟨rfl, rfl⟩
      refine .pure fun assigned read => ⟨.assign assigned.nests, Nat.le_refl _, ?_⟩
      have written := read.span
      simp only [Expr.marks, span_cons, span_nil] at written ⊢
      obtain ⟨name, _, here, named, rfl⟩ := written
      exact ⟨name, _, here, named, sign, _, stepped.ahead, matched, assigned.span⟩
    | get object name =>
      refine .pure fun assigned read => ?_
      obtain ⟨object, tight⟩ := nests_get read.nests
      refine ⟨.set object tight assigned.nests, Nat.le_refl _, ?_⟩
      have written := read.span
      simp only [Expr.marks, span_append, span_cons, span_nil] at written ⊢
      obtain ⟨before, span, dot, dotted, rfl, isDot, t, _, rfl, named, rfl⟩ := written
      exact ⟨_, span, dot, _, rfl, isDot, t, _, rfl, named, sign, _, stepped.ahead, matched, assigned.span⟩
    | _ => exact .report fun _ => .pure trivial

theorem conditional_succ : Renders (Grammar.conditional (n + 1)) .conditional c := by
  apply Clean.andThen (all.binary closed)
  intro condition middle onward
  have there := onward.closed closed
  apply Clean.bind (.of_reads (accept_reads _ middle))
  intro taken chosen further accepted
  cases accepted with
  | left => exact .pure fun read => read.looser (by decide)
  | @taken question chosen matched stepped =>
    have within := further.closed there
    apply Clean.andThen (all.assignment within)
    intro thenBranch colon beyond
    apply Clean.bind (.of_reads (expectSymbol_steps _ _ colon))
    rintro _ otherwise onward' ⟨sign, isColon, stepped'⟩
    apply Clean.andThen (all.conditional (onward'.closed (beyond.closed within)))
    intro elseBranch last _
    refine .pure fun other choice tested => ?_
    refine ⟨.conditional tested.nests tested.tight choice.nests other.nests other.tight, Nat.le_refl _, ?_⟩
    simp only [Expr.marks, span_append, span_cons]
    exact ⟨_, tested.span, question, _, stepped.ahead, matched, _, choice.span, sign, _, stepped'.ahead,
      isColon, other.span⟩

theorem binary_succ (t : Tier) : Renders (Grammar.binary (n + 1) t) (.tier t) c := by
  apply Clean.andThen (all.operand closed)
  intro left middle onward
  apply (all.binaryRest (onward.closed closed)).mono
  intro e last _ rest first
  exact rest c.ahead (first.looser (Nat.le_of_lt (Rung.tier_lt_tighter t)))

theorem binaryRest_succ {t : Tier} {left : Expr} : Clean (Grammar.binaryRest (n + 1) t left) c fun e after =>
    ∀ start, Rendered (.tier t) left start c.ahead → Rendered (.tier t) e start after.ahead := by
  apply Clean.bind (.of_reads (operator_reads t closed))
  rintro _ middle onward (⟨rfl, rfl⟩ | ⟨operator, rfl, chosen, stepped⟩)
  · exact .pure fun _ => id
  · have there := onward.closed closed
    apply Clean.andThen (all.operand there)
    intro right last further
    apply (all.binaryRest (further.closed there)).mono
    intro e after _ rest second start first
    apply rest start
    have tighter : t.rank < right.rank := Nat.lt_of_lt_of_le (Rung.tier_lt_tighter t) second.tight
    refine ⟨.operation chosen first.nests first.tight second.nests tighter, ?_, ?_⟩
    · exact Nat.le_of_eq (node_rank chosen left right).symm
    · simp only [node_marks, span_append, span_cons]
      exact ⟨_, first.span, operator, _, stepped.ahead, ⟨rfl, rfl⟩, second.span⟩

theorem operand_succ (t : Tier) : Renders (Grammar.operand (n + 1) t) (Rung.tier t).tighter c := by
  cases t with
  | factor => exact all.power closed
  | _ => exact all.binary closed

theorem power_succ : Renders (Grammar.power (n + 1)) .power c := by
  apply Clean.andThen (all.unary closed)
  intro base middle onward
  have there := onward.closed closed
  apply Clean.bind (.of_reads (accept_reads _ middle))
  intro taken raised further accepted
  cases accepted with
  | left => exact .pure fun read => read.looser (by decide)
  | @taken operator raised matched stepped =>
    apply Clean.andThen (all.power (further.closed there))
    intro exponent last _
    refine .pure fun second first => ⟨.power matched first.nests first.tight second.nests second.tight, ?_, ?_⟩
    · simp [Expr.rank, Expr.rung, matched, Tier.ofKind?, Rung.rank]
    · simp only [Expr.marks, span_append, span_cons]
      exact ⟨_, first.span, operator, _, stepped.ahead, ⟨rfl, rfl⟩, second.span⟩

theorem unary_succ : Renders (Grammar.unary (n + 1)) .unary c := by
  have signed (sign : c.next.kind ∈ [.symbol .bang, .symbol .minus]) :
      Renders (do advance; return Expr.unary c.next (← Grammar.unary n)) .unary c := by
    have open_ : c.next.kind ≠ .endOfFile := by
      intro last
      simp [last] at sign
    apply Clean.bind (.of_reads (advance_reads closed open_))
    intro _ middle onward stepped
    apply Clean.andThen (all.unary (onward.closed closed))
    intro right last _
    refine .pure fun operand => ⟨.unary sign operand.nests operand.tight, Nat.le_refl _, ?_⟩
    simp only [Expr.marks, span_cons]
    exact ⟨c.next, _, stepped.ahead, ⟨rfl, rfl⟩, operand.span⟩
  apply Clean.of_next
  split
  · next found => exact signed (by simp [found])
  · next found => exact signed (by simp [found])
  · exact (all.call closed).mono fun _ _ _ read => read.looser (by decide)

theorem call_succ : Renders (Grammar.call (n + 1)) .call c := by
  apply Clean.andThen (all.primary closed)
  intro callee middle onward
  apply (all.callRest (onward.closed closed)).mono
  intro e last _ rest first
  exact rest c.ahead (first.looser (by decide))

theorem callRest_succ {callee : Expr} : Clean (Grammar.callRest (n + 1) callee) c fun e after =>
    ∀ start, Rendered .call callee start c.ahead → Rendered .call e start after.ahead := by
  apply Clean.of_next
  split
  · next found =>
    apply Clean.bind (.of_reads (advance_reads closed (by simp [found])))
    intro _ opened onward stepped
    have there := onward.closed closed
    have listed : Clean (listUnless .rightParen (Grammar.arguments n 0)) opened fun es after =>
        (∀ e ∈ es, Nests e) ∧ Span (Expr.listMarks es) opened.ahead after.ahead := by
      apply listUnless_advances ((all.arguments there).mono fun _ _ _ given => given.2)
      exact fun _ => ⟨by simp, span_nil.mpr rfl⟩
    apply Clean.andThen listed
    intro arguments closing further
    have within := further.closed there
    apply Clean.bind (.of_reads (expect_reads _ _ closing))
    rintro paren after beyond ⟨closes, stepped'⟩
    apply (all.callRest (beyond.closed within)).mono
    rintro e last _ rest ⟨nests, span⟩ start first
    apply rest start
    refine ⟨.call first.nests first.tight nests, Nat.le_refl _, ?_⟩
    simp only [Expr.marks, span_append, span_cons, span_nil]
    exact ⟨_, first.span, c.next, _, stepped.ahead, found, _, span, paren, _, stepped'.ahead,
      ⟨rfl, closes⟩, rfl⟩
  · next found =>
    apply Clean.bind (.of_reads (advance_reads closed (by simp [found])))
    intro _ dotted onward stepped
    apply Clean.bind (.of_reads (expectName_reads _ dotted))
    rintro name after further ⟨named, stepped'⟩
    apply (all.callRest (further.closed (onward.closed closed))).mono
    intro e last _ rest start first
    apply rest start
    refine ⟨.get first.nests first.tight, Nat.le_refl _, ?_⟩
    simp only [Expr.marks, span_append, span_cons, span_nil]
    exact ⟨_, first.span, c.next, _, stepped.ahead, found, name, _, stepped'.ahead, ⟨rfl, named⟩, rfl⟩
  · exact .pure fun _ => id

theorem arguments_succ (before : Nat) : Clean (Grammar.arguments (n + 1) before) c fun es after =>
    es ≠ [] ∧ (∀ e ∈ es, Nests e) ∧ Span (Expr.listMarks es) c.ahead after.ahead := by
  apply Clean.bind (.of_reads (boundArity_stays before _ c))
  rintro _ start onward ⟨ahead, _, _⟩
  rw [← ahead]
  have there := onward.closed closed
  apply Clean.andThen (all.assignment there)
  intro first middle further
  apply Clean.bind (.of_reads (accept_reads _ middle))
  intro taken others beyond accepted
  cases accepted with
  | left =>
    refine .pure fun read => ⟨List.cons_ne_nil _ _, ?_, read.span⟩
    intro e member
    obtain rfl := List.mem_singleton.mp member
    exact read.nests
  | @taken comma others matched stepped =>
    apply Clean.andThen (all.arguments (beyond.closed (further.closed there)))
    intro rest last _
    apply Clean.pure
    rintro ⟨nonempty, nests, span⟩ read
    refine ⟨List.cons_ne_nil _ _, ?_, ?_⟩
    · exact List.forall_mem_cons.mpr ⟨read.nests, nests⟩
    · rw [listMarks_cons first nonempty]
      simp only [span_append, span_cons]
      exact ⟨_, read.span, comma, _, stepped.ahead, matched, span⟩

omit all in
/-- A token that is an expression by itself. -/
theorem literal_renders {l : Literal} (found : c.next.kind = literalKind l) :
    Renders (do advance; return Expr.literal l) .primary c := by
  have open_ : c.next.kind ≠ .endOfFile := by
    rw [found]
    unfold literalKind
    split <;> simp
  apply Clean.bind (.of_reads (advance_reads closed open_))
  intro _ after _ stepped
  exact .pure ⟨.literal, Nat.le_refl _, by simpa [Expr.marks, Mark.Fits, stepped.ahead] using found⟩

omit all in
theorem leftless_renders {right : Rule Expr} {k : Rung} (open_ : c.next.kind ≠ .endOfFile)
    (reads : ∀ {after}, Closed after → Renders right k after) :
    Renders (leftless c.next right) .primary c := by
  apply Clean.bind (.of_reads (advance_reads closed open_))
  intro _ after onward _
  exact Clean.andThen (reads (onward.closed closed)) fun _ _ _ => .reject

theorem primary_succ : Renders (Grammar.primary (n + 1)) .primary c := by
  apply Clean.of_next
  split
  · next found => exact literal_renders closed found
  · next found => exact literal_renders closed found
  · next found => exact literal_renders closed found
  · next found => exact literal_renders closed found
  · next found => exact literal_renders closed found
  · next found =>
    apply Clean.bind (.of_reads (advance_reads closed (by simp [found])))
    intro _ after _ stepped
    apply Clean.bind (.of_reads (reference_reads _ after))
    rintro _ _ _ ⟨rfl, rfl⟩
    refine .pure ⟨.this, Nat.le_refl _, ?_⟩
    simp [Expr.marks, Mark.Fits, stepped.ahead, found]
  · next found =>
    apply Clean.bind (.of_reads (advance_reads closed (by simp [found])))
    intro _ dot _ stepped
    apply Clean.bind (.of_reads (expectSymbol_steps _ _ dot))
    rintro _ name _ ⟨sign, dots, stepped'⟩
    apply Clean.bind (.of_reads (expectName_reads _ name))
    rintro method last _ ⟨named, stepped''⟩
    apply Clean.bind (.of_reads (reference_reads _ last))
    rintro _ _ _ ⟨rfl, rfl⟩
    refine .pure ⟨.super, Nat.le_refl _, ?_⟩
    simp [Expr.marks, Mark.Fits, stepped.ahead, stepped'.ahead, stepped''.ahead, found, dots, named]
  · next found =>
    apply Clean.bind (.of_reads (advance_reads closed (by simp [found])))
    intro _ after _ stepped
    apply Clean.bind (.of_reads (reference_reads _ after))
    rintro _ _ _ ⟨rfl, rfl⟩
    refine .pure ⟨.variable, Nat.le_refl _, ?_⟩
    simp [Expr.marks, Mark.Fits, stepped.ahead, found]
  · next found =>
    apply Clean.bind (.of_reads (advance_reads closed (by simp [found])))
    intro _ opened onward stepped
    apply Clean.andThen (all.assignment (onward.closed closed))
    intro inner closing _
    apply Clean.bind (.of_reads (expectSymbol_steps _ _ closing))
    rintro _ after _ ⟨paren, closes, stepped'⟩
    refine .pure fun read => ⟨.grouping read.nests, Nat.le_refl _, ?_⟩
    simp only [Expr.marks, span_append, span_cons, span_nil]
    exact ⟨c.next, _, stepped.ahead, found, _, read.span, paren, _, stepped'.ahead, closes, rfl⟩
  -- an operator with nothing on its left, tier by tier
  iterate 10
    · next found => exact leftless_renders closed (by simp [found]) all.binary
  · next found => exact leftless_renders closed (by simp [found]) all.power
  · exact .reject

end ExpressionsRender

theorem expressionsRender (n : Nat) : ExpressionsRender n := by
  induction n with
  | zero => constructor <;> intros <;> exact .exhausted
  | succ n ih =>
    exact ⟨ih.assignment_succ, ih.conditional_succ, fun closed => ih.binary_succ closed _,
      fun closed => ih.binaryRest_succ closed, fun closed => ih.operand_succ closed _, ih.power_succ,
      ih.unary_succ, ih.call_succ, fun closed => ih.callRest_succ closed,
      fun closed => ih.arguments_succ closed _, ih.primary_succ⟩

end LoxLang.Grammar
