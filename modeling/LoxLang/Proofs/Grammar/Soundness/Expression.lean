import LoxLang.Proofs.Grammar.Language
import LoxLang.Proofs.Grammar.Reading

/-! What is read without a report is derived from the grammar, and no rule is exhausted.
A rule that gives a result has stepped over at least one token, which is what its budget counts: a
chain of rules between one token and the next is never longer than 32. -/
namespace LoxLang.Grammar
open Cursor

/-- A rule for a phrase has read some tokens; if it reported nothing, they are derived from it. -/
structure Gives (p : Phrase) (c after : Cursor) : Prop where
  shorter : after.size < c.size
  derives : after.faults = c.faults → Derives p c.kinds after.kinds

/-- What the tokens of an expression are that can stand before an equals sign. -/
def Target (e : Expr) (ts rest : List Token.Kind) : Prop :=
  match e with
  | .variable _ => ts = .identifier :: rest
  | .get _ _ => Derives .call ts (.symbol .dot :: .identifier :: rest)
  | _ => True

/-- A rule for a phrase that an assignment can have read as its target. -/
structure GivesTarget (p : Phrase) (c : Cursor) (e : Expr) (after : Cursor) : Prop
    extends Gives p c after where
  target : after.faults = c.faults → Target e c.kinds after.kinds

/-- The budget that an operator tier needs before its first token. -/
def Tier.height : Tier → Nat
  | .or_ => 16
  | .and_ => 14
  | .equality => 12
  | .comparison => 10
  | .term => 8
  | .factor => 6

theorem Tier.height_le (t : Tier) : t.height ≤ 16 := by cases t <;> decide

theorem Tier.mem_operators {t : Tier} {kind : Token.Kind} (found : Tier.ofKind? kind = some t) :
    kind ∈ t.operators := by
  unfold Tier.ofKind? at found
  split at found <;> cases found <;> simp [Tier.operators]

/-- Whether two results of a tier are the same operand, or the second is an operation. -/
def Operated (left e : Expr) (ts rest : List Token.Kind) : Prop :=
  (e = left ∧ ts = rest) ∨ ∀ ts rest, Target e ts rest

/-- Whether two results of a chain of suffixes are the same callee, or the second ends in one. -/
def Suffixed (callee e : Expr) (ts rest : List Token.Kind) : Prop :=
  (e = callee ∧ ts = rest) ∨
    match e with
    | .variable _ => False
    | .get _ _ => Derives (.many .suffix) ts (.symbol .dot :: .identifier :: rest)
    | _ => True

theorem operator_reads (t : Tier) {c : Cursor} (closed : Closed c) :
    Reads t.operator? c fun found after =>
      (found = none ∧ after = c) ∨
        ∃ operator, found = some operator ∧ Tier.ofKind? operator.kind = some t ∧
          Stepped c operator after := by
  apply Reads.of_next
  split
  · next found =>
    have open_ : c.next.kind ≠ .endOfFile := by
      intro last
      simp [last, Tier.ofKind?] at found
    apply Reads.bind (advance_reads closed open_)
    intro _ after _ stepped
    exact .pure (.inr ⟨c.next, rfl, found, stepped⟩)
  · exact .pure (.inl ⟨rfl, rfl⟩)

/-- Every rule of expressions reads with this budget. -/
structure ExpressionsRead (n : Nat) : Prop where
  assignment : ∀ {c}, Closed c → 32 * c.size + 18 ≤ n →
    Reads (assignment n) c fun _ after => Gives .assignment c after
  conditional : ∀ {c}, Closed c → 32 * c.size + 17 ≤ n →
    Reads (conditional n) c fun e after => GivesTarget .conditional c e after
  binary : ∀ {c t}, Closed c → 32 * c.size + t.height ≤ n →
    Reads (binary n t) c fun e after => GivesTarget (.tier t) c e after
  binaryRest : ∀ {c t left}, Closed c → 32 * c.size + 1 ≤ n →
    Reads (binaryRest n t left) c fun e after => after.faults = c.faults →
      Derives (.many (.operation t)) c.kinds after.kinds ∧ Operated left e c.kinds after.kinds
  operand : ∀ {c t}, Closed c → 32 * c.size + t.height ≤ n + 1 →
    Reads (operand n t) c fun e after => GivesTarget t.operands c e after
  power : ∀ {c}, Closed c → 32 * c.size + 4 ≤ n →
    Reads (power n) c fun e after => GivesTarget .power c e after
  unary : ∀ {c}, Closed c → 32 * c.size + 3 ≤ n →
    Reads (unary n) c fun e after => GivesTarget .unary c e after
  call : ∀ {c}, Closed c → 32 * c.size + 2 ≤ n →
    Reads (call n) c fun e after => GivesTarget .call c e after
  callRest : ∀ {c callee}, Closed c → 32 * c.size + 1 ≤ n →
    Reads (callRest n callee) c fun e after => after.faults = c.faults →
      Derives (.many .suffix) c.kinds after.kinds ∧ Suffixed callee e c.kinds after.kinds
  arguments : ∀ {c before}, Closed c → 32 * c.size + 19 ≤ n →
    Reads (arguments n before) c fun es after => after.size < c.size ∧ (after.faults = c.faults →
      Derives (.arguments es.length) c.kinds after.kinds ∧ before + es.length ≤ 255)
  primary : ∀ {c}, Closed c → 32 * c.size + 1 ≤ n →
    Reads (primary n) c fun e after => GivesTarget .primary c e after

namespace ExpressionsRead

variable {n : Nat} (all : ExpressionsRead n) {c : Cursor}
include all

theorem assignment_succ (closed : Closed c) (enough : 32 * c.size + 18 ≤ n + 1) :
    Reads (Grammar.assignment (n + 1)) c fun _ after => Gives .assignment c after := by
  apply Reads.bind (all.conditional closed (by omega))
  intro target after onward given
  apply Reads.bind (accept_reads _ after)
  intro taken middle _ accepted
  cases accepted with
  | left => exact .pure ⟨given.shorter, fun clean => .unassigned (given.derives clean)⟩
  | @taken equals middle matched stepped =>
    obtain ⟨size, clean, kinds⟩ := stepped.took matched
    have shorter := given.shorter
    apply Reads.bind (all.assignment (stepped.onward.closed (onward.closed closed)) (by omega))
    intro value last further valued
    have fewer := valued.shorter
    have before := onward.faults_le
    have later := further.faults_le
    cases target with
    | «variable» r =>
      apply Reads.bind (reference_reads r.name last)
      rintro _ _ _ ⟨rfl, rfl⟩
      refine .pure ⟨Nat.lt_trans fewer (by omega), fun unreported => ?_⟩
      have same : last.faults = c.faults := unreported
      have named := given.target (by omega)
      rw [named, kinds]
      exact .assign .absent (valued.derives (by omega))
    | get object name =>
      refine .pure ⟨by omega, fun same => ?_⟩
      have object := given.target (by omega)
      rw [kinds] at object
      exact .assign (.present (.receiver object)) (valued.derives (by omega))
    | _ =>
      apply Reads.bind (report_reads _ _ last)
      rintro _ _ _ rfl
      refine .pure ⟨Nat.lt_trans fewer (by omega), fun unreported => ?_⟩
      have more : last.faults + 1 = c.faults := by simpa [Cursor.faults] using unreported
      omega

theorem conditional_succ (closed : Closed c) (enough : 32 * c.size + 17 ≤ n + 1) :
    Reads (Grammar.conditional (n + 1)) c fun e after => GivesTarget .conditional c e after := by
  apply Reads.bind (all.binary closed (by simp only [Tier.height]; omega))
  intro condition after onward given
  apply Reads.bind (accept_reads _ after)
  intro taken middle _ accepted
  cases accepted with
  | left =>
    exact .pure ⟨⟨given.shorter, fun clean => .conditional (given.derives clean) .absent⟩,
      given.target⟩
  | @taken question middle matched stepped =>
    obtain ⟨size, clean, kinds⟩ := stepped.took matched
    have shorter := given.shorter
    have before := onward.faults_le
    have closed' := stepped.onward.closed (onward.closed closed)
    apply Reads.bind (all.assignment closed' (by omega))
    intro thenBranch last further thenGives
    have fewer := thenGives.shorter
    have later := further.faults_le
    apply Reads.bind (expectSymbol_reads _ _ last)
    intro _ other colon ⟨otherSize, otherClean, otherKinds⟩
    apply Reads.bind (all.conditional (colon.closed (further.closed closed')) (by omega))
    intro elseBranch finish beyond elseGives
    have least := elseGives.shorter
    have latest := beyond.faults_le
    refine .pure ⟨⟨by omega, fun same => ?_⟩, fun _ => trivial⟩
    apply Derives.conditional (given.derives (by omega))
    rw [kinds]
    apply Derives.present (.branches _ (elseGives.derives (by omega)))
    rw [← otherKinds]
    exact thenGives.derives (by omega)

theorem binary_succ {t : Tier} (closed : Closed c) (enough : 32 * c.size + t.height ≤ n + 1) :
    Reads (Grammar.binary (n + 1) t) c fun e after => GivesTarget (.tier t) c e after := by
  have low : 1 ≤ t.height := by cases t <;> decide
  apply Reads.bind (all.operand closed enough)
  intro left after onward given
  have shorter := given.shorter
  apply (all.binaryRest (onward.closed closed) (by omega)).mono
  intro e last further rest
  have fewer := further.size_le
  have before := onward.faults_le
  have later := further.faults_le
  refine ⟨⟨by omega, fun same => ?_⟩, fun same => ?_⟩
  · exact .tier (given.derives (by omega)) (rest (by omega)).1
  · obtain ⟨rfl, nothing⟩ | operation := (rest (by omega)).2
    · rw [← nothing]
      exact given.target (by omega)
    · exact operation _ _

theorem binaryRest_succ {t : Tier} {left : Expr} (closed : Closed c)
    (enough : 32 * c.size + 1 ≤ n + 1) :
    Reads (Grammar.binaryRest (n + 1) t left) c fun e after => after.faults = c.faults →
      Derives (.many (.operation t)) c.kinds after.kinds ∧ Operated left e c.kinds after.kinds := by
  apply Reads.bind (operator_reads t closed)
  rintro _ after onward (⟨rfl, rfl⟩ | ⟨operator, rfl, chosen, stepped⟩)
  · exact .pure fun _ => ⟨.done, .inl ⟨rfl, rfl⟩⟩
  obtain ⟨size, clean, kinds⟩ := stepped.took rfl
  have member := Tier.mem_operators chosen
  have low := t.height_le
  have closed' := onward.closed closed
  apply Reads.bind (all.operand closed' (by omega))
  intro right last further given
  have shorter := given.shorter
  apply (all.binaryRest (further.closed closed') (by omega)).mono
  intro e finish beyond rest same
  have later := further.faults_le
  have latest := beyond.faults_le
  obtain ⟨others, shape⟩ := rest (by omega)
  refine ⟨?_, .inr ?_⟩
  · rw [kinds]
    exact .more (.operation member (given.derives (by omega))) others
  · obtain ⟨rfl, _⟩ | operation := shape
    · cases t <;> exact fun _ _ => trivial
    · exact operation

theorem operand_succ {t : Tier} (closed : Closed c) (enough : 32 * c.size + t.height ≤ n + 2) :
    Reads (Grammar.operand (n + 1) t) c fun e after => GivesTarget t.operands c e after := by
  cases t with
  | factor => exact all.power closed (by simp only [Tier.height] at enough; omega)
  | _ => exact all.binary closed (by simp only [Tier.height] at enough ⊢; omega)

theorem power_succ (closed : Closed c) (enough : 32 * c.size + 4 ≤ n + 1) :
    Reads (Grammar.power (n + 1)) c fun e after => GivesTarget .power c e after := by
  apply Reads.bind (all.unary closed (by omega))
  intro base after onward given
  apply Reads.bind (accept_reads _ after)
  intro taken middle _ accepted
  cases accepted with
  | left =>
    exact .pure ⟨⟨given.shorter, fun clean => .power (given.derives clean) .absent⟩, given.target⟩
  | @taken operator middle matched stepped =>
    obtain ⟨size, clean, kinds⟩ := stepped.took matched
    have shorter := given.shorter
    apply Reads.bind (all.power (stepped.onward.closed (onward.closed closed)) (by omega))
    intro exponent last further raised
    have fewer := raised.shorter
    have before := onward.faults_le
    have later := further.faults_le
    refine .pure ⟨⟨by omega, fun same => ?_⟩, fun _ => trivial⟩
    apply Derives.power (given.derives (by omega))
    rw [kinds]
    exact .present (.exponent (raised.derives (by omega)))

theorem unary_succ (closed : Closed c) (enough : 32 * c.size + 3 ≤ n + 1) :
    Reads (Grammar.unary (n + 1)) c fun e after => GivesTarget .unary c e after := by
  have signed {kind : Token.Kind} (sign : c.next.kind = kind) (open_ : kind ≠ .endOfFile)
      (derived : ∀ {ts rest}, Derives .unary ts rest → Derives .unary (kind :: ts) rest) :
      Reads (do advance; return .unary c.next (← Grammar.unary n)) c
        fun e after => GivesTarget .unary c e after := by
    apply Reads.bind (advance_reads closed (sign ▸ open_))
    intro _ after onward stepped
    obtain ⟨size, clean, kinds⟩ := stepped.took sign
    apply Reads.bind (all.unary (onward.closed closed) (by omega))
    intro right last further given
    have shorter := given.shorter
    refine .pure ⟨⟨by omega, fun same => ?_⟩, fun _ => trivial⟩
    rw [kinds]
    exact derived (given.derives (by omega))
  apply Reads.of_next
  split
  · next sign => exact signed sign nofun .not
  · next sign => exact signed sign nofun .negate
  · apply (all.call closed (by omega)).mono
    intro e after _ given
    exact ⟨⟨given.shorter, fun clean => .unsigned (given.derives clean)⟩, given.target⟩

theorem call_succ (closed : Closed c) (enough : 32 * c.size + 2 ≤ n + 1) :
    Reads (Grammar.call (n + 1)) c fun e after => GivesTarget .call c e after := by
  apply Reads.bind (all.primary closed (by omega))
  intro callee after onward given
  have shorter := given.shorter
  apply (all.callRest (onward.closed closed) (by omega)).mono
  intro e last further rest
  have fewer := further.size_le
  have before := onward.faults_le
  have later := further.faults_le
  refine ⟨⟨by omega, fun same => ?_⟩, fun same => ?_⟩
  · exact .call (given.derives (by omega)) (rest (by omega)).1
  · obtain ⟨rfl, nothing⟩ | suffixed := (rest (by omega)).2
    · rw [← nothing]
      exact given.target (by omega)
    · cases e with
      | «variable» r => exact suffixed.elim
      | get object name => exact .call (given.derives (by omega)) suffixed
      | _ => trivial

theorem callRest_succ {callee : Expr} (closed : Closed c) (enough : 32 * c.size + 1 ≤ n + 1) :
    Reads (Grammar.callRest (n + 1) callee) c fun e after => after.faults = c.faults →
      Derives (.many .suffix) c.kinds after.kinds ∧ Suffixed callee e c.kinds after.kinds := by
  apply Reads.of_next
  split
  · next opening =>
    apply Reads.bind (advance_reads closed (opening ▸ nofun))
    intro _ after onward stepped
    obtain ⟨size, clean, kinds⟩ := stepped.took opening
    have closed' := onward.closed closed
    apply Reads.bind (listUnless_reads (all.arguments closed' (by omega)))
    intro arguments middle further listed
    have given : middle.size ≤ after.size ∧ (middle.faults = after.faults → ∃ count, count ≤ 255 ∧
        Derives (.optional (.arguments count)) after.kinds middle.kinds) := by
      obtain ⟨rfl, rfl⟩ | ⟨shorter, given⟩ := listed
      · exact ⟨Nat.le_refl _, fun _ => ⟨0, by omega, .absent⟩⟩
      · refine ⟨Nat.le_of_lt shorter, fun same => ?_⟩
        obtain ⟨derived, few⟩ := given same
        exact ⟨arguments.length, by omega, .present derived⟩
    obtain ⟨shorter, given⟩ := given
    apply Reads.bind (expect_reads _ _ middle)
    intro paren last beyond ⟨closing, closingStepped⟩
    obtain ⟨lastSize, lastClean, lastKinds⟩ := closingStepped.took closing
    apply (all.callRest (beyond.closed (further.closed closed')) (by omega)).mono
    intro e finish final rest same
    have later := further.faults_le
    have latest := final.faults_le
    obtain ⟨count, few, derived⟩ := given (by omega)
    obtain ⟨others, shape⟩ := rest (by omega)
    rw [lastKinds] at derived
    have invocation := Derives.invocation derived few
    rw [kinds]
    refine ⟨.more invocation others, .inr ?_⟩
    obtain ⟨rfl, _⟩ | suffixed := shape
    · trivial
    · cases e with
      | get object name => exact .more invocation suffixed
      | «variable» r => exact suffixed
      | _ => trivial
  · next dot =>
    apply Reads.bind (advance_reads closed (dot ▸ nofun))
    intro _ after onward stepped
    obtain ⟨size, clean, kinds⟩ := stepped.took dot
    apply Reads.bind (expectName_reads _ after)
    intro name last further ⟨named, nameStepped⟩
    obtain ⟨lastSize, lastClean, lastKinds⟩ := nameStepped.took named
    apply (all.callRest (further.closed (onward.closed closed)) (by omega)).mono
    intro e finish final rest same
    have latest := final.faults_le
    obtain ⟨others, shape⟩ := rest (by omega)
    rw [kinds, lastKinds]
    refine ⟨.more .property others, .inr ?_⟩
    obtain ⟨rfl, nothing⟩ | suffixed := shape
    · rw [nothing]
      exact .done
    · cases e with
      | get object name => exact .more .property suffixed
      | «variable» r => exact suffixed
      | _ => trivial
  · exact .pure fun _ => ⟨.done, .inl ⟨rfl, rfl⟩⟩

theorem arguments_succ {before : Nat} (closed : Closed c) (enough : 32 * c.size + 19 ≤ n + 1) :
    Reads (Grammar.arguments (n + 1) before) c fun es after => after.size < c.size ∧
      (after.faults = c.faults →
        Derives (.arguments es.length) c.kinds after.kinds ∧ before + es.length ≤ 255) := by
  apply Reads.bind (boundArity_reads before _ c)
  intro _ start onward ⟨kinds, size, _, few⟩
  have closed' := onward.closed closed
  apply Reads.bind (all.assignment closed' (by omega))
  intro first after further given
  have shorter := given.shorter
  have earlier := onward.faults_le
  have later := further.faults_le
  apply Reads.bind (accept_reads _ after)
  intro taken middle _ accepted
  cases accepted with
  | left =>
    refine .pure ⟨by omega, fun same => ⟨?_, few (by omega)⟩⟩
    rw [← kinds]
    exact .lastArgument (given.derives (by omega))
  | @taken comma middle matched stepped =>
    obtain ⟨commaSize, commaClean, commaKinds⟩ := stepped.took matched
    apply Reads.bind (all.arguments (stepped.onward.closed (further.closed closed')) (by omega))
    intro rest last beyond ⟨fewer, others⟩
    have latest := beyond.faults_le
    refine .pure ⟨by omega, fun same => ?_⟩
    obtain ⟨derived, bound⟩ := others (by omega)
    have first := given.derives (by omega)
    rw [commaKinds, kinds] at first
    exact ⟨.arguments first derived, by simp only [List.length_cons]; omega⟩

omit all in
/-- A token that is an expression by itself. -/
theorem literal_reads {kind : Token.Kind} {e : Expr} (closed : Closed c) (found : c.next.kind = kind)
    (open_ : kind ≠ .endOfFile) (derived : ∀ {rest}, Derives .primary (kind :: rest) rest)
    (shape : ∀ ts rest, Target e ts rest) :
    Reads (do advance; return e) c fun e after => GivesTarget .primary c e after := by
  apply Reads.bind (advance_reads closed (found ▸ open_))
  intro _ after _ stepped
  obtain ⟨size, clean, kinds⟩ := stepped.took found
  refine .pure ⟨⟨by omega, fun _ => ?_⟩, fun _ => shape _ _⟩
  rw [kinds]
  exact derived

omit all in
/-- A token that is a reference by itself. -/
theorem reference_expr_reads {kind : Token.Kind} {build : Reference → Expr} (closed : Closed c)
    (found : c.next.kind = kind) (open_ : kind ≠ .endOfFile)
    (derived : ∀ {rest}, Derives .primary (kind :: rest) rest)
    (shape : ∀ r rest, Target (build r) (kind :: rest) rest) :
    Reads (do advance; return build (← reference c.next)) c
      fun e after => GivesTarget .primary c e after := by
  apply Reads.bind (advance_reads closed (found ▸ open_))
  intro _ after _ stepped
  obtain ⟨size, clean, kinds⟩ := stepped.took found
  apply Reads.bind (reference_reads _ after)
  rintro r _ _ ⟨_, rfl⟩
  refine .pure ⟨⟨(by omega : after.size < c.size), fun _ => ?_⟩, fun _ => ?_⟩
  · rw [kinds]
    exact derived
  · rw [kinds]
    exact shape r _

omit all in
/-- An operator without a left operand is rejected, whatever follows it. -/
theorem leftless_reads {right : Rule Expr} {ok : Expr → Cursor → Prop}
    {ok' : Cursor → Expr → Cursor → Prop} (closed : Closed c) (open_ : c.next.kind ≠ .endOfFile)
    (reads : ∀ {after}, Closed after → c.size = after.size + 1 →
      Reads right after (ok' after)) :
    Reads (leftless c.next right) c ok := by
  apply Reads.bind (advance_reads closed open_)
  intro _ after onward stepped
  exact (reads (onward.closed closed) stepped.size).bind fun _ _ _ _ => .reject

theorem primary_succ (closed : Closed c) (enough : 32 * c.size + 1 ≤ n + 1) :
    Reads (Grammar.primary (n + 1)) c fun e after => GivesTarget .primary c e after := by
  have tierless {t : Tier} (open_ : c.next.kind ≠ .endOfFile) :
      Reads (leftless c.next (Grammar.binary n t)) c
        fun e after => GivesTarget .primary c e after := by
    have low := t.height_le
    exact leftless_reads closed open_ fun closed' size => all.binary closed' (by omega)
  apply Reads.of_next
  split
  · next found => exact literal_reads closed found nofun .false_ fun _ _ => trivial
  · next found => exact literal_reads closed found nofun .true_ fun _ _ => trivial
  · next found => exact literal_reads closed found nofun .nil_ fun _ _ => trivial
  · next found => exact literal_reads closed found nofun .number fun _ _ => trivial
  · next found => exact literal_reads closed found nofun .string fun _ _ => trivial
  · next found => exact reference_expr_reads closed found nofun .this_ fun _ _ => trivial
  · next found =>
    apply Reads.bind (advance_reads closed (found ▸ nofun))
    intro _ after onward stepped
    obtain ⟨size, clean, kinds⟩ := stepped.took found
    apply Reads.bind (expectSymbol_reads _ _ after)
    intro _ middle _ ⟨dotSize, dotClean, dotKinds⟩
    apply Reads.bind (expectName_reads _ middle)
    intro method last _ ⟨named, nameStepped⟩
    obtain ⟨nameSize, nameClean, nameKinds⟩ := nameStepped.took named
    apply Reads.bind (reference_reads _ last)
    rintro r _ _ ⟨_, rfl⟩
    refine .pure ⟨⟨(by omega : last.size < c.size), fun _ => ?_⟩, fun _ => trivial⟩
    rw [kinds, dotKinds, nameKinds]
    exact .super_
  · next found => exact reference_expr_reads closed found nofun .name fun _ _ => rfl
  · next found =>
    apply Reads.bind (advance_reads closed (found ▸ nofun))
    intro _ after onward stepped
    obtain ⟨size, clean, kinds⟩ := stepped.took found
    apply Reads.bind (all.assignment (onward.closed closed) (by omega))
    intro inner middle further given
    have shorter := given.shorter
    have later := further.faults_le
    apply Reads.bind (expectSymbol_reads _ _ middle)
    intro _ last _ ⟨lastSize, lastClean, lastKinds⟩
    refine .pure ⟨⟨by omega, fun same => ?_⟩, fun _ => trivial⟩
    have derived := given.derives (by omega)
    rw [lastKinds] at derived
    rw [kinds]
    exact .grouping derived
  -- an operator with nothing on its left, tier by tier
  iterate 10
    · next found => exact tierless (found ▸ nofun)
  · next found =>
    exact leftless_reads closed (found ▸ nofun) fun closed' size => all.power closed' (by omega)
  · exact .reject

end ExpressionsRead

theorem expressionsRead (n : Nat) : ExpressionsRead n := by
  induction n with
  | zero =>
    have high (t : Tier) : 2 ≤ t.height := by cases t <;> decide
    constructor
    case binary =>
      intro c t _ enough
      have := high t
      omega
    case operand =>
      intro c t _ enough
      have := high t
      omega
    all_goals
      intros
      omega
  | succ n ih =>
    exact ⟨ih.assignment_succ, ih.conditional_succ, ih.binary_succ, ih.binaryRest_succ,
      ih.operand_succ, ih.power_succ, ih.unary_succ, ih.call_succ, ih.callRest_succ,
      ih.arguments_succ, ih.primary_succ⟩

end LoxLang.Grammar
