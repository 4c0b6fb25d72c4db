import LoxLang.Proofs.Grammar.Soundness.Expression

/-! Soundness of the rules of statements: a program that is read without a report is derived from
the grammar. A declaration that is rejected is reported, so recovery never hides one. -/
namespace LoxLang.Grammar
open Cursor

/-- A rule that begins behind a token of this kind has read the rest of a phrase. -/
def Completes (opening : Token.Kind) (p : Phrase) (c after : Cursor) : Prop :=
  after.faults = c.faults → Derives p (opening :: c.kinds) after.kinds

/-- A rule has read what is derived from a phrase, which may be nothing. -/
def Covers (p : Phrase) (c after : Cursor) : Prop :=
  after.faults = c.faults → Derives p c.kinds after.kinds

/-- A phrase that is completed behind its first token is given. -/
theorem Took.gives {opening : Token.Kind} {p : Phrase} {c middle after : Cursor}
    (took : Took opening c middle) (further : Onward middle after)
    (completes : Completes opening p middle after) : Gives p c after := by
  obtain ⟨size, clean, kinds⟩ := took
  have fewer := further.size_le
  refine ⟨by omega, fun same => ?_⟩
  rw [kinds]
  exact completes (by omega)

theorem Gives.mono {p q : Phrase} {c after : Cursor} (gives : Gives p c after)
    (wider : ∀ {ts rest}, Derives p ts rest → Derives q ts rest) : Gives q c after :=
  ⟨gives.shorter, fun same => wider (gives.derives same)⟩

/-- A semicolon or another symbol behind what has been read. -/
theorem closing_reads {α : Type} {rule : Rule α} {c : Cursor} {p : Phrase} (s : Symbol)
    (place : SyntaxError.Place) {β : Type} (build : α → β)
    (reads : Reads rule c fun _ after => Covers p c after) :
    Reads (do let a ← rule; expectSymbol s place; return build a) c fun _ after =>
      after.faults = c.faults → Derives p c.kinds (.symbol s :: after.kinds) := by
  apply Reads.bind reads
  intro a middle onward covers
  apply Reads.bind (expectSymbol_reads s place middle)
  intro _ after _ ⟨size, clean, kinds⟩
  refine .pure fun same => ?_
  rw [← kinds]
  exact covers (by omega)

section Simple

variable {n : Nat} {c : Cursor} (closed : Closed c)
include closed

theorem expression_reads (enough : 32 * c.size + 18 ≤ n) :
    Reads (assignment n) c fun _ after => Gives .assignment c after :=
  (expressionsRead n).assignment closed enough

theorem expressionUnless_reads (closing : Symbol) (enough : 32 * c.size + 18 ≤ n) :
    Reads (expressionUnless closing n) c fun _ after => Covers (.optional .assignment) c after := by
  apply Reads.bind (sees_reads _ c)
  rintro _ c _ ⟨rfl, rfl⟩
  split
  · exact .pure fun _ => .absent
  · apply Reads.bind (expression_reads closed enough)
    intro e after _ given
    exact .pure fun same => .present (given.derives same)

theorem expressionStatement_reads (enough : 32 * c.size + 18 ≤ n) :
    Reads (expressionStatement n) c fun _ after => Gives .exprStmt c after := by
  apply Reads.bind (expression_reads closed enough)
  intro e middle _ given
  have shorter := given.shorter
  apply Reads.bind (expectSymbol_reads _ _ middle)
  intro _ after _ ⟨size, clean, kinds⟩
  refine .pure ⟨by omega, fun same => .exprStmt ?_⟩
  rw [← kinds]
  exact given.derives (by omega)

theorem printStatement_reads (enough : 32 * c.size + 18 ≤ n) :
    Reads (printStatement n) c fun _ after => Completes (.keyword .print_) .printStmt c after := by
  have valued := (expression_reads closed enough).mono fun _ _ _ given => given.derives
  apply (closing_reads .semicolon .afterPrintedValue Stmt.print valued).mono
  exact fun _ _ _ value same => .printStmt (value same)

theorem returnStatement_reads (keyword : Token) (enough : 32 * c.size + 18 ≤ n) :
    Reads (returnStatement keyword n) c fun _ after =>
      Completes (.keyword .return_) .returnStmt c after := by
  have valued := expressionUnless_reads closed .semicolon enough
  apply (closing_reads .semicolon .afterReturnValue (Stmt.return_ keyword) valued).mono
  exact fun _ _ _ value same => .returnStmt (value same)

theorem varDeclaration_reads (enough : 32 * c.size + 18 ≤ n) :
    Reads (varDeclaration n) c fun _ after => Completes (.keyword .var_) .varDecl c after := by
  apply Reads.bind (expectName_reads _ c)
  intro name middle onward ⟨named, stepped⟩
  obtain ⟨size, clean, kinds⟩ := stepped.took named
  have valued : Reads (optionalAfter (.symbol .equal) (assignment n)) middle
      fun _ after => Covers (.optional .initializer) middle after := by
    apply (optionalAfter_reads fun start further took => expression_reads
      (further.closed (onward.closed closed)) (by have := took.size; omega)).mono
    intro initializer after _ given same
    cases given with
    | absent => exact .absent
    | present took further value =>
      obtain ⟨_, clean', kinds'⟩ := took
      rw [kinds']
      exact .present (.initializer (value.derives (by omega)))
  apply (closing_reads .semicolon .afterVariable (Stmt.var name) valued).mono
  intro _ after _ value same
  rw [kinds]
  exact .varDecl (value (by omega))

/-- A condition is an expression between parentheses. -/
theorem condition_reads (opening place : SyntaxError.Place) (enough : 32 * c.size + 18 ≤ n) :
    Reads (condition opening place n) c fun _ after => after.size < c.size ∧
      (after.faults = c.faults → ∃ ts, c.kinds = .symbol .leftParen :: ts ∧
        Derives .assignment ts (.symbol .rightParen :: after.kinds)) := by
  apply Reads.bind (expectSymbol_reads _ _ c)
  intro _ middle onward ⟨size, clean, kinds⟩
  apply Reads.bind (expression_reads (onward.closed closed) (by omega))
  intro e last further given
  have shorter := given.shorter
  have later := further.faults_le
  apply Reads.bind (expectSymbol_reads _ _ last)
  intro _ after _ ⟨size', clean', kinds'⟩
  refine .pure ⟨by omega, fun same => ⟨middle.kinds, kinds, ?_⟩⟩
  rw [← kinds']
  exact given.derives (by omega)

theorem forInitializer_reads (enough : 32 * c.size + 18 ≤ n) :
    Reads (forInitializer n) c fun _ after => Gives .forFirst c after := by
  apply Reads.of_next
  split
  · next found =>
    apply Reads.bind (advance_reads closed (found ▸ nofun))
    intro _ after _ stepped
    obtain ⟨size, clean, kinds⟩ := stepped.took found
    refine .pure ⟨by omega, fun _ => ?_⟩
    rw [kinds]
    exact .firstNothing
  · next found =>
    apply Reads.bind (advance_reads closed (found ▸ nofun))
    intro _ middle onward stepped
    have took := stepped.took found
    have size := took.size
    apply (varDeclaration_reads (onward.closed closed) (by omega)).map
    intro _ after further completes
    exact (took.gives further completes).mono .firstVariable
  · apply (expressionStatement_reads closed enough).map
    exact fun _ _ _ given => given.mono .firstExpression

end Simple

theorem parameters_reads (n before : Nat) {c : Cursor} (enough : 32 * c.size + 1 ≤ n) :
    Reads (parameters n before) c fun names after => after.faults = c.faults →
      Derives (.parameters names.length) c.kinds after.kinds ∧ before + names.length ≤ 255 := by
  induction n generalizing c before with
  | zero => omega
  | succ n ih =>
    apply Reads.bind (boundArity_reads before _ c)
    intro _ start onward ⟨kinds, size, _, few⟩
    have earlier := onward.faults_le
    apply Reads.bind (expectName_reads _ start)
    intro first after further ⟨named, stepped⟩
    obtain ⟨size', clean', kinds'⟩ := stepped.took named
    apply Reads.bind (accept_reads _ after)
    intro taken middle _ accepted
    cases accepted with
    | left =>
      refine .pure fun same => ⟨?_, few (by omega)⟩
      rw [← kinds, kinds']
      exact .lastParameter
    | @taken comma middle matched stepped =>
      obtain ⟨commaSize, commaClean, commaKinds⟩ := stepped.took matched
      apply Reads.bind (ih (before + 1) (by omega : 32 * middle.size + 1 ≤ n))
      intro rest last beyond others
      have latest := beyond.faults_le
      refine .pure fun same => ?_
      obtain ⟨derived, bound⟩ := others (by omega)
      rw [← kinds, kinds', commaKinds]
      exact ⟨.parameters derived, by simp only [List.length_cons]; omega⟩

/-- Between these two tokens recovery takes a statement to end. -/
def Boundary (t next : Token) : Prop := t.kind = .symbol .semicolon ∨ startsStatement next = true

/-- Recovery passes no boundary behind the skipped token, and goes on to one or to the end. -/
theorem fromBoundary_first (skipped : Token) (ts : List Token) :
    ∃ passed last, skipped :: ts = passed ++ [last] ++ fromBoundary skipped ts ∧
      (∀ t next, [t, next] <:+: passed ++ [last] → ¬ Boundary t next) ∧
      ∀ next ∈ (fromBoundary skipped ts).head?, Boundary last next := by
  induction ts generalizing skipped with
  | nil => exact ⟨[], skipped, rfl, fun t next within => absurd within.length_le (by simp), nofun⟩
  | cons t rest ih =>
    unfold fromBoundary
    split
    · next stops =>
      refine ⟨[], skipped, rfl, fun t next within => absurd within.length_le (by simp), ?_⟩
      rintro _ ⟨⟩
      simpa [Boundary] using stops
    · next passes =>
      have apart : ¬ Boundary skipped t := by simpa [Boundary] using passes
      obtain ⟨passed, last, same, inside, stops⟩ := ih t
      refine ⟨skipped :: passed, last, congrArg (skipped :: ·) same, fun s next within => ?_, stops⟩
      obtain here | later := List.infix_cons_iff.mp within
      · obtain ⟨rfl, more, head⟩ := List.cons_prefix_cons.mp here
        have head : next :: more = passed ++ [last] := head
        rw [← head] at same
        injection same with first
        exact first ▸ apart
      · exact inside s next later

theorem fromBoundary_suffix (skipped : Token) (ts : List Token) : fromBoundary skipped ts <:+ ts := by
  obtain ⟨passed, last, same, _⟩ := fromBoundary_first skipped ts
  cases passed with
  | nil =>
    injection same with _ same
    exact ⟨[], same.symm⟩
  | cons t passed =>
    injection same with _ same
    exact ⟨passed ++ [last], same.symm⟩

/-- Recovery goes on through the tokens ahead, and past at least one unless none is left. -/
theorem recover_onward (c : Cursor) : Onward c c.recover ∧ (c.ahead ≠ [] → c.recover.size < c.size) := by
  unfold Cursor.recover
  cases ahead : c.ahead with
  | nil => exact ⟨.refl c, fun open_ => absurd rfl open_⟩
  | cons t rest =>
    have suffix := fromBoundary_suffix t rest
    refine ⟨⟨?_, rfl, List.prefix_refl _, Nat.le_refl _⟩, fun _ => ?_⟩
    · rw [ahead]
      exact suffix.trans (List.suffix_cons t rest)
    · have short := suffix.length_le
      simp only [Cursor.size, ahead, List.length_cons]
      omega

/-- Recovery goes on from where a fault was found, and has reported it. -/
theorem noted_onward (c : Cursor) (e : SyntaxError) :
    Onward c (c.noted e).recover ∧ c.faults < (c.noted e).recover.faults := by
  have noting : Onward c (c.noted e) :=
    ⟨List.suffix_refl _, rfl, List.prefix_append _ _, Nat.le_refl _⟩
  have further := (recover_onward (c.noted e)).1
  have later := further.faults_le
  refine ⟨noting.trans further, Nat.lt_of_lt_of_le ?_ later⟩
  simp [Cursor.faults, Cursor.noted]

/-- Recovery reads on past a token, and reports what made it necessary. -/
theorem recovering_reads {rule : Rule Stmt} {c : Cursor} {p : Phrase} (open_ : c.ahead ≠ [])
    (reads : Reads rule c fun _ after => Gives p c after) :
    Reads (recovering rule) c fun _ after => Gives p c after := by
  cases ended : rule c with
  | ok s after =>
    exact .of_ok (recovering_of_ok ended) (Ends.ok_of reads ended)
  | error failure after =>
    obtain ⟨onward, rejected⟩ := Ends.error_of reads ended
    cases failure with
    | exhausted => exact absurd rfl rejected
    | rejected e =>
      obtain ⟨further, more⟩ := noted_onward after e
      have shorter := (recover_onward (after.noted e)).2
      have fewer : after.size ≤ c.size := onward.size_le
      have later : c.faults ≤ after.faults := onward.faults_le
      refine .of_ok (recovering_of_rejected ended) ⟨onward.trans further, ?_, fun same => by omega⟩
      by_cases left : after.ahead = []
      · have none_left : (after.noted e).recover.size = 0 := by
          simp [Cursor.recover, Cursor.size, noted, left]
        have some_left : 0 < c.size := List.length_pos_iff.mpr open_
        omega
      · exact Nat.lt_of_lt_of_le (shorter left) fewer

/-- Every rule of statements reads with this budget. -/
structure StatementsRead (n : Nat) : Prop where
  declaration : ∀ {c}, Closed c → c.ahead ≠ [] → 32 * c.size + 20 ≤ n →
    Reads (declaration n) c fun _ after => Gives .declaration c after
  classDeclaration : ∀ {c}, Closed c → 32 * c.size + 1 ≤ n →
    Reads (classDeclaration n) c fun _ after => Completes (.keyword .class_) .classDecl c after
  methods : ∀ {c}, Closed c → 32 * c.size + 2 ≤ n →
    Reads (methods n) c fun _ after => Covers (.many .function) c after
  routine : ∀ {c}, Closed c → ∀ role, 32 * c.size + 1 ≤ n →
    Reads (routine n role) c fun _ after => Gives .function c after
  block : ∀ {c}, Closed c → 32 * c.size + 22 ≤ n →
    Reads (block n) c fun _ after => Completes (.symbol .leftBrace) .block c after
  blockDeclarations : ∀ {c}, Closed c → 32 * c.size + 21 ≤ n →
    Reads (blockDeclarations n) c fun _ after => Covers (.many .declaration) c after
  statement : ∀ {c}, Closed c → 32 * c.size + 19 ≤ n →
    Reads (statement n) c fun _ after => Gives .statement c after
  forStatement : ∀ {c}, Closed c → 32 * c.size + 1 ≤ n →
    Reads (forStatement n) c fun _ after => Completes (.keyword .for_) .forStmt c after
  ifStatement : ∀ {c}, Closed c → 32 * c.size + 19 ≤ n →
    Reads (ifStatement n) c fun _ after => Completes (.keyword .if_) .ifStmt c after
  whileStatement : ∀ {c}, Closed c → 32 * c.size + 19 ≤ n →
    Reads (whileStatement n) c fun _ after => Completes (.keyword .while_) .whileStmt c after

namespace StatementsRead

variable {n : Nat} (all : StatementsRead n) {c : Cursor} (closed : Closed c)
include all closed

theorem declaration_succ (open_ : c.ahead ≠ []) (enough : 32 * c.size + 20 ≤ n + 1) :
    Reads (Grammar.declaration (n + 1)) c fun _ after => Gives .declaration c after := by
  apply recovering_reads open_
  apply Reads.of_next
  split
  · next found =>
    apply Reads.bind (advance_reads closed (found ▸ nofun))
    intro _ middle onward stepped
    have took := stepped.took found
    have size := took.size
    apply (all.classDeclaration (onward.closed closed) (by omega)).mono
    intro _ after further completes
    exact (took.gives further completes).mono .ofClass
  · next found =>
    apply Reads.bind (advance_reads closed (found ▸ nofun))
    intro _ middle onward stepped
    have took := stepped.took found
    have size := took.size
    apply (all.routine (onward.closed closed) _ (by omega)).map
    intro _ after further given
    have completes : Completes (.keyword .fun_) .funDecl middle after :=
      fun same => .funDecl (given.derives same)
    exact (took.gives further completes).mono .ofFunction
  · next found =>
    apply Reads.bind (advance_reads closed (found ▸ nofun))
    intro _ middle onward stepped
    have took := stepped.took found
    have size := took.size
    apply (varDeclaration_reads (onward.closed closed) (by omega)).mono
    intro _ after further completes
    exact (took.gives further completes).mono .ofVariable
  · apply (all.statement closed (by omega)).mono
    exact fun _ _ _ given => given.mono .ofStatement

theorem classDeclaration_succ (enough : 32 * c.size + 1 ≤ n + 1) :
    Reads (Grammar.classDeclaration (n + 1)) c fun _ after =>
      Completes (.keyword .class_) .classDecl c after := by
  apply Reads.bind (expectName_reads _ c)
  intro name start onward ⟨named, stepped⟩
  obtain ⟨size, clean, kinds⟩ := stepped.took named
  have clause : Reads (optionalAfter (.symbol .less) (reference =<< expectName .ofSuperclass)) start
      fun _ after => Covers (.optional .superclass) start after := by
    have referred (middle : Cursor) : Reads (reference =<< expectName .ofSuperclass) middle
        fun _ after => middle.kinds = .identifier :: after.kinds := by
      apply Reads.bind (expectName_reads _ middle)
      intro parent after _ ⟨named, stepped⟩
      apply (reference_reads parent after).mono
      rintro _ _ _ ⟨_, rfl⟩
      exact (stepped.took named).kinds
    apply (optionalAfter_reads fun middle _ _ => referred middle).mono
    intro _ after _ given same
    cases given with
    | absent => exact .absent
    | present took _ named =>
      rw [took.kinds, named]
      exact .present .superclass
  apply Reads.bind clause
  intro superclass middle further covers
  apply Reads.bind (expectSymbol_reads _ _ middle)
  intro _ body opened ⟨bodySize, bodyClean, bodyKinds⟩
  have fewer := further.size_le
  have later := further.faults_le
  have inner := (all.methods (opened.closed (further.closed (onward.closed closed))) (by omega)).mono
    fun _ _ _ covers => covers
  apply (closing_reads .rightBrace .afterClassBody (Stmt.class_ name superclass) inner).mono
  intro _ after last methods same
  have latest := last.faults_le
  have header := covers (by omega)
  rw [bodyKinds] at header
  rw [kinds]
  exact .classDecl header (methods (by omega))

theorem methods_succ (enough : 32 * c.size + 2 ≤ n + 1) :
    Reads (Grammar.methods (n + 1)) c fun _ after => Covers (.many .function) c after := by
  apply Reads.bind (atEnd_reads c)
  rintro ended c _ ⟨_, rfl⟩
  apply Reads.bind (sees_reads _ c)
  rintro closes c _ ⟨_, rfl⟩
  split
  · exact .pure fun _ => .done
  · apply Reads.bind (all.routine closed _ (by omega))
    intro first middle onward given
    have shorter := given.shorter
    have earlier := onward.faults_le
    apply Reads.bind (all.methods (onward.closed closed) (by omega))
    intro rest after further covers
    have later := further.faults_le
    exact .pure fun same => .more (given.derives (by omega)) (covers (by omega))

theorem routine_succ (role : Routine) (enough : 32 * c.size + 1 ≤ n + 1) :
    Reads (Grammar.routine (n + 1) role) c fun _ after => Gives .function c after := by
  apply Reads.bind (expectName_reads _ c)
  intro name start onward ⟨named, stepped⟩
  obtain ⟨size, clean, kinds⟩ := stepped.took named
  apply Reads.bind (expectSymbol_reads _ _ start)
  intro _ list opened ⟨listSize, listClean, listKinds⟩
  apply Reads.bind (listUnless_reads (parameters_reads n 0 (by omega)))
  intro parameters last further listed
  have few : last.faults = list.faults → ∃ count, count ≤ 255 ∧
      Derives (.optional (.parameters count)) list.kinds last.kinds := by
    intro same
    obtain ⟨_, rfl⟩ | given := listed
    · exact ⟨0, by omega, .absent⟩
    · obtain ⟨derived, bound⟩ := given same
      exact ⟨parameters.length, by omega, .present derived⟩
  have fewer := further.size_le
  have later := further.faults_le
  apply Reads.bind (expectSymbol_reads _ _ last)
  intro _ brace closing ⟨braceSize, braceClean, braceKinds⟩
  apply Reads.bind (expectSymbol_reads _ _ brace)
  intro _ body braced ⟨bodySize, bodyClean, bodyKinds⟩
  have closed' := braced.closed (closing.closed (further.closed (opened.closed (onward.closed closed))))
  apply Reads.bind (all.block closed' (by omega))
  intro statements after beyond completes
  have least := beyond.size_le
  have latest := beyond.faults_le
  refine .pure ⟨by omega, fun same => ?_⟩
  obtain ⟨count, bound, derived⟩ := few (by omega)
  rw [braceKinds] at derived
  have block := completes (by omega)
  rw [← bodyKinds] at block
  rw [kinds, listKinds]
  exact .function derived bound block

theorem block_succ (enough : 32 * c.size + 22 ≤ n + 1) :
    Reads (Grammar.block (n + 1)) c fun _ after =>
      Completes (.symbol .leftBrace) .block c after := by
  have inner := (all.blockDeclarations closed (by omega)).mono fun _ _ _ covers => covers
  apply (closing_reads .rightBrace .afterBlock id inner).mono
  exact fun _ _ _ body same => .block (body same)

theorem blockDeclarations_succ (enough : 32 * c.size + 21 ≤ n + 1) :
    Reads (Grammar.blockDeclarations (n + 1)) c fun _ after =>
      Covers (.many .declaration) c after := by
  apply Reads.bind (atEnd_reads c)
  rintro ended c _ ⟨rfl, rfl⟩
  apply Reads.bind (sees_reads _ c)
  rintro closes c _ ⟨_, rfl⟩
  split
  · exact .pure fun _ => .done
  · next goes_on =>
    have open_ : c.ahead ≠ [] := by
      intro empty
      simp [empty] at goes_on
    apply Reads.bind (all.declaration closed open_ (by omega))
    intro first middle onward given
    have shorter := given.shorter
    have earlier := onward.faults_le
    apply Reads.bind (all.blockDeclarations (onward.closed closed) (by omega))
    intro rest after further covers
    have later := further.faults_le
    exact .pure fun same => .more (given.derives (by omega)) (covers (by omega))

theorem forStatement_succ (enough : 32 * c.size + 1 ≤ n + 1) :
    Reads (Grammar.forStatement (n + 1)) c fun _ after =>
      Completes (.keyword .for_) .forStmt c after := by
  apply Reads.bind (expectSymbol_reads _ _ c)
  intro _ start onward ⟨size, clean, kinds⟩
  have closed₁ := onward.closed closed
  apply Reads.bind (forInitializer_reads closed₁ (by omega))
  intro initializer test first given
  have shorter := given.shorter
  have faults₁ := first.faults_le
  have closed₂ := first.closed closed₁
  apply Reads.bind (expressionUnless_reads closed₂ .semicolon (by omega))
  intro condition semicolon second tested
  have size₂ := second.size_le
  have faults₂ := second.faults_le
  apply Reads.bind (expectSymbol_reads _ _ semicolon)
  intro _ step third ⟨stepSize, stepClean, stepKinds⟩
  have closed₃ := third.closed (second.closed closed₂)
  apply Reads.bind (expressionUnless_reads closed₃ .rightParen (by omega))
  intro increment paren fourth incremented
  have size₄ := fourth.size_le
  have faults₄ := fourth.faults_le
  apply Reads.bind (expectSymbol_reads _ _ paren)
  intro _ body fifth ⟨bodySize, bodyClean, bodyKinds⟩
  apply Reads.bind (all.statement (fifth.closed (fourth.closed closed₃)) (by omega))
  intro repeated after last looped
  have faults₅ := last.faults_le
  refine .pure fun same => ?_
  have condition := tested (by omega)
  have increment := incremented (by omega)
  rw [stepKinds] at condition
  rw [bodyKinds] at increment
  rw [kinds]
  exact .forStmt (given.derives (by omega)) condition increment (looped.derives (by omega))

theorem ifStatement_succ (enough : 32 * c.size + 19 ≤ n + 1) :
    Reads (Grammar.ifStatement (n + 1)) c fun _ after =>
      Completes (.keyword .if_) .ifStmt c after := by
  apply Reads.bind (condition_reads closed _ _ (by omega))
  intro test start onward ⟨size, tested⟩
  have closed' := onward.closed closed
  apply Reads.bind (all.statement closed' (by omega))
  intro thenBranch middle further given
  have shorter := given.shorter
  apply Reads.bind (optionalAfter_reads fun other beyond took =>
    all.statement (beyond.closed (further.closed closed')) (by have := took.size; omega))
  intro elseBranch after last alternative
  have earlier := onward.faults_le
  have later := further.faults_le
  have latest := last.faults_le
  refine .pure fun same => ?_
  obtain ⟨ts, kinds, condition⟩ := tested (by omega)
  rw [kinds]
  apply Derives.ifStmt condition (given.derives (by omega))
  cases alternative with
  | absent => exact .absent
  | present took _ given =>
    obtain ⟨_, clean, kinds⟩ := took
    rw [kinds]
    exact .present (.elseBranch (given.derives (by omega)))

theorem whileStatement_succ (enough : 32 * c.size + 19 ≤ n + 1) :
    Reads (Grammar.whileStatement (n + 1)) c fun _ after =>
      Completes (.keyword .while_) .whileStmt c after := by
  apply Reads.bind (condition_reads closed _ _ (by omega))
  intro test start onward ⟨size, tested⟩
  apply Reads.bind (all.statement (onward.closed closed) (by omega))
  intro body after further given
  have earlier := onward.faults_le
  have later := further.faults_le
  refine .pure fun same => ?_
  obtain ⟨ts, kinds, condition⟩ := tested (by omega)
  rw [kinds]
  exact .whileStmt condition (given.derives (by omega))

omit all in
/-- A statement that is chosen by its first token and completed by a rule of its own. -/
theorem chosen_reads {kind : Token.Kind} {p : Phrase} {rule : Rule Stmt}
    (found : c.next.kind = kind) (open_ : kind ≠ .endOfFile)
    (wider : ∀ {ts rest}, Derives p ts rest → Derives .statement ts rest)
    (reads : ∀ {middle}, Closed middle → c.size = middle.size + 1 →
      Reads rule middle fun _ after => Completes kind p middle after) :
    Reads (do advance; rule) c fun _ after => Gives .statement c after := by
  apply Reads.bind (advance_reads closed (found ▸ open_))
  intro _ middle onward stepped
  have took := stepped.took found
  apply (reads (onward.closed closed) took.size).mono
  intro _ after further completes
  exact (took.gives further completes).mono wider

theorem statement_succ (enough : 32 * c.size + 19 ≤ n + 1) :
    Reads (Grammar.statement (n + 1)) c fun _ after => Gives .statement c after := by
  apply Reads.of_next
  split
  · next found =>
    exact chosen_reads closed found nofun .ofFor fun closed' size =>
      all.forStatement closed' (by omega)
  · next found =>
    exact chosen_reads closed found nofun .ofIf fun closed' size =>
      all.ifStatement closed' (by omega)
  · next found =>
    exact chosen_reads closed found nofun .ofWhile fun closed' size =>
      all.whileStatement closed' (by omega)
  · next found =>
    exact chosen_reads closed found nofun .ofReturn fun closed' size =>
      returnStatement_reads closed' _ (by omega)
  · next found =>
    exact chosen_reads closed found nofun .ofBlock fun closed' size =>
      (all.block closed' (by omega)).map fun _ _ _ completes => completes
  · next found =>
    exact chosen_reads closed found nofun .ofPrint fun closed' size =>
      printStatement_reads closed' (by omega)
  · apply (expressionStatement_reads closed (by omega)).mono
    exact fun _ _ _ given => given.mono .ofExpression

end StatementsRead

theorem statementsRead (n : Nat) : StatementsRead n := by
  induction n with
  | zero =>
    constructor
    all_goals
      intros
      omega
  | succ n ih =>
    exact ⟨ih.declaration_succ, ih.classDeclaration_succ, ih.methods_succ, ih.routine_succ,
      ih.block_succ, ih.blockDeclarations_succ, ih.statement_succ, ih.forStatement_succ,
      ih.ifStatement_succ, ih.whileStatement_succ⟩

/-- A program is read to its end. -/
theorem program_reads (n : Nat) {c : Cursor} (closed : Closed c) (enough : 32 * c.size + 21 ≤ n) :
    Reads (program n) c fun _ after => after.ahead = [] ∧ Covers (.many .declaration) c after := by
  induction n generalizing c with
  | zero => omega
  | succ n ih =>
    apply Reads.bind (atEnd_reads c)
    rintro ended c _ ⟨rfl, rfl⟩
    split
    · next empty => exact .pure ⟨List.isEmpty_iff.mp empty, fun _ => .done⟩
    · next goes_on =>
      have open_ : c.ahead ≠ [] := fun empty => goes_on (List.isEmpty_iff.mpr empty)
      apply Reads.bind ((statementsRead n).declaration closed open_ (by omega))
      intro first middle onward given
      have shorter := given.shorter
      have earlier := onward.faults_le
      apply Reads.bind (ih (onward.closed closed) (by omega))
      intro rest after further ⟨empty, covers⟩
      have later := further.faults_le
      exact .pure ⟨empty, fun same => .more (given.derives (by omega)) (covers (by omega))⟩

end LoxLang.Grammar
