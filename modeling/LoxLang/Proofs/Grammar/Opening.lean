import LoxLang.Proofs.Grammar.Language

/-! With which tokens a phrase can begin, and which tokens would continue it. A rule chooses by the
next token alone, so it reads what a derivation calls for as long as the alternatives begin
differently and what follows a phrase is no continuation of it. -/
namespace LoxLang.Grammar

def opensPrimary : Token.Kind → Bool
  | .number _ | .string _ | .identifier | .symbol .leftParen => true
  | .keyword .true_ | .keyword .false_ | .keyword .nil_ => true
  | .keyword .this_ | .keyword .super_ => true
  | _ => false

def opensExpression (kind : Token.Kind) : Bool :=
  opensPrimary kind || [.symbol .bang, .symbol .minus].contains kind

def opensStatement (kind : Token.Kind) : Bool :=
  opensExpression kind || [.keyword .for_, .keyword .if_, .keyword .while_, .keyword .print_,
    .keyword .return_, .symbol .leftBrace].contains kind

def opensDeclaration (kind : Token.Kind) : Bool :=
  opensStatement kind || [.keyword .class_, .keyword .fun_, .keyword .var_].contains kind

/-- The tokens with which a phrase can begin. -/
def Phrase.opens : Phrase → Token.Kind → Bool
  | .primary | .call | .receiver => opensPrimary
  | .assignment | .conditional | .tier _ | .power | .unary | .arguments _
  | .exprStmt => opensExpression
  | .operation t => t.operators.contains
  | .statement | .forStmt | .ifStmt | .printStmt | .returnStmt | .whileStmt | .block =>
    opensStatement
  | .declaration | .classDecl | .funDecl | .varDecl => opensDeclaration
  | .function | .parameters _ => [Token.Kind.identifier].contains
  | _ => fun _ => true

/-- The tokens begin with one of these. -/
def Begins (opens : Token.Kind → Bool) (ts : List Token.Kind) : Prop := ts.head?.any opens = true

theorem Begins.mono {opens wider : Token.Kind → Bool} {ts : List Token.Kind} (begins : Begins opens ts)
    (weaken : ∀ kind, opens kind = true → wider kind = true) : Begins wider ts := by
  cases ts with
  | nil => exact begins
  | cons kind rest => exact weaken kind begins

theorem opensExpression_of_primary (kind : Token.Kind) (opens : opensPrimary kind = true) :
    opensExpression kind = true := by simp [opensExpression, opens]

theorem opensStatement_of_expression (kind : Token.Kind) (opens : opensExpression kind = true) :
    opensStatement kind = true := by simp [opensStatement, opens]

theorem opensDeclaration_of_statement (kind : Token.Kind) (opens : opensStatement kind = true) :
    opensDeclaration kind = true := by simp [opensDeclaration, opens]

/-- How a derivation begins; an optional or repeated phrase may be absent. -/
def Phrase.Opens : Phrase → List Token.Kind → List Token.Kind → Prop
  | .optional p, ts, rest | .many p, ts, rest => ts = rest ∨ Begins p.opens ts
  | p, ts, _ => Begins p.opens ts

theorem Phrase.Opens.of_inner {p : Phrase} {ts rest : List Token.Kind} (opens : p.Opens ts rest) :
    ts = rest ∨ Begins p.opens ts := by
  cases p with
  | optional p => exact opens.imp id fun begins => begins.mono fun _ _ => rfl
  | many p => exact opens.imp id fun begins => begins.mono fun _ _ => rfl
  | _ => exact .inr opens

theorem Derives.opens {p : Phrase} {ts rest : List Token.Kind} (d : Derives p ts rest) :
    p.Opens ts rest := by
  induction d with
  | program body ih =>
    obtain rfl | begins := ih
    · rfl
    · exact begins.mono fun _ _ => rfl
  | ofStatement d ih => exact ih.mono opensDeclaration_of_statement
  | ofExpression s ih => exact ih.mono opensStatement_of_expression
  | assign target assigned ih =>
    obtain rfl | begins := ih
    · rfl
    · exact begins.mono opensExpression_of_primary
  | @tier t _ _ _ first others ih => cases t <;> exact ih
  | operation member right ih => exact List.contains_iff_mem.mpr member
  | unsigned e ih => exact ih.mono opensExpression_of_primary
  | absent => exact .inl rfl
  | present once ih => exact ih.of_inner
  | done => exact .inl rfl
  | more first others ih ih' =>
    obtain rfl | begins := ih.of_inner
    · exact ih'
    · exact .inr begins
  | firstVariable d ih => exact ih.mono fun _ _ => rfl
  | firstExpression d ih => exact ih.mono fun _ _ => rfl
  | _ => first | rfl | assumption

/-- The place of a tier among the phrases that can be continued. -/
def Tier.rank : Tier → Nat
  | .or_ => 3
  | .and_ => 4
  | .equality => 5
  | .comparison => 6
  | .term => 7
  | .factor => 8

/-- How tight the phrases are that a token continues: an equals sign continues the loosest, an
argument list or a property the tightest. -/
def grip : Token.Kind → Nat
  | .symbol .equal => 1
  | .symbol .question => 2
  | .symbol .starStar => 9
  | .symbol .leftParen | .symbol .dot => 10
  | kind => ((Tier.ofKind? kind).map Tier.rank).getD 0

/-- What follows does not continue a phrase of this tightness. -/
def Loose (bound : Nat) (rest : List Token.Kind) : Prop :=
  ∀ kind, rest.head? = some kind → grip kind < bound

theorem Loose.mono {low high : Nat} {rest : List Token.Kind} (loose : Loose low rest)
    (le : low ≤ high) : Loose high rest := fun kind head => Nat.lt_of_lt_of_le (loose kind head) le

theorem Loose.of_head {bound : Nat} {kind : Token.Kind} {rest : List Token.Kind}
    (head : rest.head? = some kind) (less : grip kind < bound) : Loose bound rest := by
  intro other found
  rw [head] at found
  cases found
  exact less

theorem Loose.cons {bound : Nat} {kind : Token.Kind} {rest : List Token.Kind}
    (less : grip kind < bound) : Loose bound (kind :: rest) := .of_head rfl less

theorem Tier.ofKind_of_mem {t : Tier} {kind : Token.Kind} (member : kind ∈ t.operators) :
    Tier.ofKind? kind = some t := by
  cases t <;> simp only [Tier.operators, List.mem_cons, List.not_mem_nil, or_false] at member <;>
    rcases member with rfl | rfl | rfl | rfl <;> rfl

theorem grip_of_tier {t : Tier} {kind : Token.Kind} (found : Tier.ofKind? kind = some t) :
    grip kind = t.rank := by
  unfold Tier.ofKind? at found
  split at found <;> cases found <;> rfl

theorem grip_of_mem {t : Tier} {kind : Token.Kind} (member : kind ∈ t.operators) :
    grip kind = t.rank := grip_of_tier (Tier.ofKind_of_mem member)

/-- What follows an operand of a tier is the next operator, or what follows the tier. -/
theorem Loose.of_operations {t : Tier} {ts rest : List Token.Kind} (loose : Loose t.rank rest)
    (others : Derives (.many (.operation t)) ts rest) : Loose (t.rank + 1) ts := by
  obtain rfl | begins := others.opens
  · exact loose.mono (Nat.le_succ _)
  · cases ts with
    | nil => nofun
    | cons operator ts =>
      apply Loose.cons
      rw [grip_of_mem (List.contains_iff_mem.mp begins)]
      exact Nat.lt_succ_self _

end LoxLang.Grammar
