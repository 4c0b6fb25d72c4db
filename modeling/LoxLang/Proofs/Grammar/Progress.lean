import LoxLang.Proofs.Grammar.Composition
import LoxLang.Proofs.Grammar.Choice
import LoxLang.Proofs.Grammar.Join
import LoxLang.Proofs.Grammar.Recognition
import LoxLang.Proofs.Grammar.Relabeling.Statement

/-! Reading comes to an end and stays among the tokens. Between its steps a rule stands at one cursor
after the other, each of them before a token of the list or before the end marker. A declaration takes
at least one token, also where it is rejected; then recovery has found a statement boundary or the end. -/
namespace LoxLang.Grammar
open Cursor

variable {α β : Type} {c here : Cursor}

/-- Where the rule stands between its steps when it begins at the first cursor. Recovery stands before
every token that it skips. -/
inductive Stands : {α : Type} → Rule α → Cursor → Cursor → Prop
  | begun {α : Type} {rule : Rule α} {c : Cursor} : Stands rule c c
  | given {α : Type} {rule : Rule α} {c after : Cursor} {a : α} (ended : rule c = .ok a after) :
    Stands rule c after
  | failed {α : Type} {rule : Rule α} {c after : Cursor} {failure : Failure}
    (ended : rule c = .error failure after) : Stands rule c after
  | first {α β : Type} {rule : Rule α} {following : α → Rule β} {c here : Cursor}
    (composed : Composed rule) (inside : Stands rule c here) : Stands (rule >>= following) c here
  | later {α β : Type} {rule : Rule α} {following : α → Rule β} {c middle here : Cursor} {a : α}
    (composed : Composed rule) (rest : ∀ a, Composed (following a)) (ended : rule c = .ok a middle)
    (inside : Stands (following a) middle here) : Stands (rule >>= following) c here
  | trying {rule : Rule Stmt} {c here : Cursor} (composed : Composed rule) (inside : Stands rule c here) :
    Stands (recovering rule) c here
  | skipping {rule : Rule Stmt} {c after : Cursor} {e : SyntaxError} {rest : List Token}
    (composed : Composed rule) (ended : rule c = .error (.rejected e) after)
    (skipped : rest <:+ after.ahead) (left : (after.noted e).recover.ahead <:+ rest) :
    Stands (recovering rule) c { after.noted e with ahead := rest }

/-- Wherever a rule stands, it has read on from where it began. -/
theorem Stands.onward {rule : Rule α} (stands : Stands rule c here) (composed : Composed rule) :
    Onward c here := by
  induction stands with
  | begun => exact .refl _
  | given ended => exact ((composed.advances _).ok_of ended).1
  | failed ended => exact (composed.advances _).error_of ended
  | first inner _ ih => exact ih inner
  | later inner rest ended _ ih => exact ((inner.advances _).ok_of ended).1.trans (ih (rest _))
  | trying inner _ ih => exact ih inner
  | skipping inner ended skipped _ =>
    have onward := (inner.advances _).error_of ended
    exact ⟨skipped.trans onward.ahead, onward.stop, onward.reported.trans (List.prefix_append _ _),
      onward.nextId⟩

/-- The cursor is before the token with this index; the tokens from there on are those ahead of it and
the end marker. -/
structure Before (tokens : List Token) (i : Nat) (c : Cursor) : Prop where
  inside : i < tokens.length
  found : tokens[i]? = some c.next
  rest : tokens.drop i = c.ahead ++ [c.stop]

theorem before_of_onward {inner : List Token} {stop : Token} (marker : stop.kind = .endOfFile)
    (single : ∀ t ∈ inner, t.kind ≠ .endOfFile) (onward : Onward (.start (inner ++ [stop])) here) :
    ∃ i, Before (inner ++ [stop]) i here := by
  have last : here.stop = stop := by
    rw [onward.stop, start_concat marker single]
  obtain ⟨passed, ahead⟩ := onward.ahead
  rw [start_ahead marker single] at ahead
  refine ⟨passed.length, ?_, ?_, ?_⟩
  · simp only [← ahead, List.length_append, List.length_singleton]
    omega
  · rw [← ahead, List.append_assoc, List.getElem?_append_right (Nat.le_refl _), Nat.sub_self,
      Cursor.next, last]
    cases here.ahead <;> rfl
  · rw [← ahead, List.append_assoc, List.drop_left, last]

/-- One expression and nothing behind it. -/
def soleExpression (n : Nat) : Rule Expr := do
  let e ← assignment n
  if ← atEnd then return e else reject .missingEnd (← next)

theorem soleExpression_composed (n : Nat) : Composed (soleExpression n) := by
  apply (expressionsComposed n).assignment.bind
  intro e
  apply Composed.atEnd.bind
  intro ended
  split
  · exact .pure e
  · exact Composed.next.bind fun t => .reject _ t

/-- A larger budget than that of a program changes nothing; it is read to its end. -/
theorem program_terminates {tokens : List Token} {n : Nat} (enough : budget tokens ≤ n) :
    ∃ after, program n (.start tokens) = .ok (readProgram tokens).1 after ∧
      after.reported = (readProgram tokens).2 ∧ after.ahead = [] := by
  obtain ⟨after, read, reported, empty⟩ := readProgram_gives tokens
  have relabels : Relabeling.same.Relabels False Relabeling.same.stmts _ _ :=
    Relabeling.program_relabels ⟨enough, False.elim⟩
  have again := relabels.again Relabeling.stmts_same fun last => by rw [read]; nofun
  exact ⟨after, again.trans read, reported, empty⟩

theorem soleExpression_reads {tokens : List Token} {n : Nat} (enough : budget tokens ≤ n) :
    Reads (soleExpression n) (.start tokens) fun _ _ => True := by
  have fewer := start_size tokens
  unfold budget at enough
  apply Reads.bind ((expressionsRead n).assignment (start_closed tokens) (by omega))
  intro e after _ _
  apply Reads.bind (atEnd_reads after)
  rintro ended after _ ⟨rfl, rfl⟩
  split
  · exact .pure trivial
  · exact (next_reads after).bind fun _ _ _ _ => .reject

theorem readExpression_of_ok {tokens : List Token} {e : Expr}
    (read : soleExpression (budget tokens) (.start tokens) = .ok e c) :
    readExpression tokens = (some e, c.reported) := by
  unfold soleExpression at read
  simp only [readExpression, read]

theorem readExpression_of_rejected {tokens : List Token} {e : SyntaxError}
    (read : soleExpression (budget tokens) (.start tokens) = .error (.rejected e) c) :
    readExpression tokens = (none, c.reported ++ [e]) := by
  unfold soleExpression at read
  simp only [readExpression, read]

/-- A larger budget than that of an expression changes nothing; it is found, or a fault is. -/
theorem soleExpression_terminates {tokens : List Token} {n : Nat} (enough : budget tokens ≤ n) :
    ∃ after, (∃ e, soleExpression n (.start tokens) = .ok e after ∧
        readExpression tokens = (some e, after.reported)) ∨
      ∃ e, soleExpression n (.start tokens) = .error (.rejected e) after ∧
        readExpression tokens = (none, after.reported ++ [e]) := by
  have reads := soleExpression_reads (Nat.le_refl (budget tokens))
  have relabels : Relabeling.same.Relabels False Relabeling.same.expr
      (soleExpression (budget tokens)) (soleExpression n) := by
    apply (Relabeling.expressionsRelabel _ ⟨enough, False.elim⟩).assignment.bind
    intro e
    apply Relabeling.Relabels.atEnd.bind
    intro ended
    cases ended with
    | true => exact .pure rfl
    | false => exact Relabeling.Relabels.next.bind fun t => .reject _ t
  have again := relabels.again Relabeling.expr_same fun after out => (reads.error_of out).2 rfl
  rw [again]
  cases ended : soleExpression (budget tokens) (.start tokens) with
  | ok e after => exact ⟨after, .inl ⟨e, rfl, readExpression_of_ok ended⟩⟩
  | error failure after =>
    cases failure with
    | rejected e => exact ⟨after, .inr ⟨e, rfl, readExpression_of_rejected ended⟩⟩
    | exhausted => exact absurd rfl (reads.error_of ended).2

/-- With budget enough a declaration comes to an end; it is found, or rejected and left out. -/
theorem declaration_terminates {n : Nat} (closed : Closed c) (open_ : c.ahead ≠ [])
    (enough : 32 * c.size + 20 ≤ n) : ∃ found after, declaration n c = .ok found after := by
  have reads := (statementsRead n).declaration closed open_ enough
  cases ended : declaration n c with
  | ok found after => exact ⟨found, after, rfl⟩
  | error failure after =>
    exact absurd ((declaration_gives n c).error_of ended) (reads.error_of ended).2

/-- Wherever a declaration begins before the end, it takes a token. -/
theorem declaration_takes_token {n : Nat} {found : Option Stmt} {after : Cursor} (closed : Closed c)
    (open_ : c.ahead ≠ []) (ended : declaration n c = .ok found after) :
    ∃ t skipped, c.ahead = t :: skipped ++ after.ahead := by
  -- a budget that is enough reads the same
  let more := 32 * c.size + 20 + n
  have larger : n ≤ more := by omega
  have again := (Relabeling.statementsRelabel ⟨id, 0⟩ ⟨larger, False.elim⟩).declaration [] c |>.ok_of ended
  rw [Relabeling.cursor_same, Relabeling.cursor_same] at again
  have reads := (statementsRead more).declaration closed open_ (by omega)
  obtain ⟨onward, gives⟩ := reads.ok_of again
  have shorter := gives.shorter
  obtain ⟨passed, ahead⟩ := onward.ahead
  cases passed with
  | nil =>
    rw [Cursor.size, Cursor.size, ← ahead] at shorter
    exact absurd shorter (Nat.lt_irrefl _)
  | cons t skipped => exact ⟨t, skipped, ahead.symm⟩

/-- Where statements begin: at the end, behind a semicolon, or before a word that begins one. -/
def AtBoundary (c after : Cursor) : Prop :=
  after.ahead = [] ∨
    (∃ front semi, semi.kind = .symbol .semicolon ∧ c.ahead = front ++ semi :: after.ahead) ∨
    ∃ word rest, after.ahead = word :: rest ∧ startsStatement word = true

theorem recover_atBoundary (c : Cursor) : AtBoundary c c.recover := by
  unfold Cursor.recover
  cases ahead : c.ahead with
  | nil => exact .inl ahead
  | cons t rest =>
    obtain ⟨passed, last, same, _, boundary⟩ := fromBoundary_first t rest
    dsimp only [AtBoundary]
    cases left : fromBoundary t rest with
    | nil => exact .inl rfl
    | cons word rest' =>
      rw [left] at same boundary
      obtain semicolon | starts := boundary word rfl
      · exact .inr (.inl ⟨passed, last, semicolon, by rw [ahead, same]; simp⟩)
      · exact .inr (.inr ⟨word, rest', rfl, starts⟩)

/-- A boundary found from a later cursor is one from the earlier cursor too. -/
theorem AtBoundary.earlier {middle after : Cursor} (onward : Onward c middle)
    (boundary : AtBoundary middle after) : AtBoundary c after := by
  obtain ⟨passed, ahead⟩ := onward.ahead
  obtain empty | ⟨front, semi, semicolon, there⟩ | starts := boundary
  · exact .inl empty
  · exact .inr (.inl ⟨passed ++ front, semi, semicolon, by rw [← ahead, there, List.append_assoc]⟩)
  · exact .inr (.inr starts)

theorem recovering_rejected_atBoundary {rule : Rule Stmt} {after : Cursor} (composed : Composed rule)
    (ended : recovering rule c = .ok none after) : AtBoundary c after := by
  cases tried : rule c with
  | ok s last =>
    rw [recovering_of_ok tried] at ended
    cases ended
  | error failure failed =>
    have onward := (composed.advances c).error_of tried
    cases failure with
    | exhausted =>
      rw [recovering_of_exhausted tried] at ended
      cases ended
    | rejected e =>
      rw [recovering_of_rejected tried] at ended
      cases ended
      exact (recover_atBoundary (failed.noted e)).earlier onward

/-- Behind a rejected declaration reading goes on at a boundary. -/
theorem declaration_rejected_atBoundary {n : Nat} {after : Cursor}
    (ended : declaration n c = .ok none after) : AtBoundary c after := by
  cases n with
  | zero => cases ended
  | succ n =>
    have all := statementsComposed n
    have stepped : Onward c c.stepped :=
      ⟨List.tail_suffix _, rfl, List.prefix_refl _, Nat.le_refl _⟩
    rw [declaration_chosen] at ended
    split at ended
    · exact (recovering_rejected_atBoundary all.classDeclaration ended).earlier stepped
    · exact (recovering_rejected_atBoundary ((all.routine _).map _) ended).earlier stepped
    · exact (recovering_rejected_atBoundary (.varDeclaration n) ended).earlier stepped
    · exact recovering_rejected_atBoundary all.statement ended

/-- Reading a program and reading an expression come to an end on every token list that ends at its only
end marker, and a larger budget changes nothing. Between its steps a rule stands before a token of the
list. Every declaration that begins before the end comes to an end, takes a token and, where it is
rejected, leaves off at a statement boundary. -/
theorem reading_terminates_inside_tokens {inner : List Token} {stop : Token}
    (marker : stop.kind = .endOfFile) (single : ∀ t ∈ inner, t.kind ≠ .endOfFile) :
    let tokens := inner ++ [stop]
    (∀ n, budget tokens ≤ n →
      (∃ after, program n (.start tokens) = .ok (readProgram tokens).1 after ∧
        after.reported = (readProgram tokens).2 ∧ after.ahead = []) ∧
      ∃ after, (∃ e, soleExpression n (.start tokens) = .ok e after ∧
          readExpression tokens = (some e, after.reported)) ∨
        ∃ e, soleExpression n (.start tokens) = .error (.rejected e) after ∧
          readExpression tokens = (none, after.reported ++ [e])) ∧
    (∀ n here, Stands (program n) (.start tokens) here ∨ Stands (soleExpression n) (.start tokens) here →
      ∃ i, Before tokens i here) ∧
    ∀ n c, Closed c → c.ahead ≠ [] →
      (32 * c.size + 20 ≤ n → ∃ found after, declaration n c = .ok found after) ∧
      ∀ found after, declaration n c = .ok found after →
        (∃ t skipped, c.ahead = t :: skipped ++ after.ahead) ∧ (found = none → AtBoundary c after) := by
  intro tokens
  refine ⟨fun n enough => ⟨program_terminates enough, soleExpression_terminates enough⟩, ?_, ?_⟩
  · intro n here stands
    have onward : Onward (.start tokens) here := by
      obtain standing | standing := stands
      · exact standing.onward (program_composed n)
      · exact standing.onward (soleExpression_composed n)
    exact before_of_onward marker single onward
  · intro n c closed open_
    refine ⟨declaration_terminates closed open_, fun found after ended => ?_⟩
    refine ⟨declaration_takes_token closed open_ ended, ?_⟩
    rintro rfl
    exact declaration_rejected_atBoundary ended

/-- A stray parenthesis is rejected and skipped, and the program is read to its end. -/
theorem stray_parenthesis_read_to_end :
    let inner : List Token := [⟨.symbol .rightParen, ")", 1⟩, ⟨.symbol .semicolon, ";", 1⟩]
    let stop : Token := .endOfFile 1
    stop.kind = .endOfFile ∧ (∀ t ∈ inner, t.kind ≠ .endOfFile) ∧
      ∀ n, budget (inner ++ [stop]) ≤ n →
        ∃ after, program n (.start (inner ++ [stop])) = .ok [] after ∧ after.ahead = [] := by
  intro inner stop
  have marker : stop.kind = .endOfFile := rfl
  have single : ∀ t ∈ inner, t.kind ≠ .endOfFile := by simp [inner]
  refine ⟨marker, single, fun n enough => ?_⟩
  obtain ⟨terminates, _⟩ := reading_terminates_inside_tokens marker single
  obtain ⟨⟨after, read, _, empty⟩, _⟩ := terminates n enough
  exact ⟨after, read, empty⟩

end LoxLang.Grammar
