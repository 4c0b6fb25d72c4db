import LoxLang.Proofs.Grammar.Building.Statement
import LoxLang.Proofs.Grammar.Extension.Expression

/-! How far the rules of statements look. A statement ends with a token of its own, so it is found again
whatever follows it; only an `if` without `else` would go on with an `else`. So a program that is read
without a fault is read again at the front of more tokens, and they are read after it. -/
namespace LoxLang.Grammar
open Cursor

variable {more : List Token} {stop : Token} {closed : Prop} {n n' : Nat}

/-- What follows does not begin with an `else`. -/
abbrev NoElse (more : List Token) : Prop := more.head?.map Token.kind ≠ some (.keyword .else_)

theorem recovering_takes {rule rule' : Rule Stmt} (takes : Takes more stop closed rule rule') :
    Takes more stop closed (recovering rule) (recovering rule') := by
  intro c
  cases ended : rule c with
  | ok s after =>
    obtain ⟨onward, found⟩ := (takes c).ok_of ended
    exact .of_ok (recovering_of_ok ended) ⟨onward, fun clean =>
      ⟨(found clean).1, fun left => recovering_of_ok ((found clean).2 left)⟩⟩
  | error failure after =>
    have onward := (takes c).error_of ended
    cases failure with
    | exhausted => exact .of_error (recovering_of_exhausted ended) onward
    | rejected e =>
      obtain ⟨further, more⟩ := noted_onward after e
      refine .of_ok (recovering_of_rejected ended) ⟨onward.trans further, fun clean => ?_⟩
      have fewer := onward.faults_le
      have same : (after.noted e).recover.faults = c.faults := congrArg List.length clean
      omega

section Simple

variable (enough : n ≤ n')
include enough

theorem assignment_extended : Extends more stop False (assignment n) (assignment n') :=
  (expressionsExtend more stop enough).assignment

theorem expressionUnless_extends (closing : Symbol) :
    Extends more stop False (expressionUnless closing n) (expressionUnless closing n') := by
  apply (Extends.sees _).bind
  intro seen
  cases seen with
  | true => exact .pure none
  | false => exact (assignment_extended enough).bind fun _ => .pure _

theorem expressionStatement_takes :
    Takes more stop closed (expressionStatement n) (expressionStatement n') :=
  .after (assignment_extended enough) fun _ => (Takes.expectSymbol _ _).bind fun _ => .pure _

theorem printStatement_takes : Takes more stop closed (printStatement n) (printStatement n') :=
  .after (assignment_extended enough) fun _ => (Takes.expectSymbol _ _).bind fun _ => .pure _

theorem returnStatement_takes (keyword : Token) :
    Takes more stop closed (returnStatement keyword n) (returnStatement keyword n') :=
  .after (expressionUnless_extends enough _) fun _ => (Takes.expectSymbol _ _).bind fun _ => .pure _

theorem varDeclaration_takes : Takes more stop closed (varDeclaration n) (varDeclaration n') :=
  (Takes.expectName _).bind fun _ => Takes.extends_ <|
    .after (.optionalAfter nofun (assignment_extended enough)) fun _ =>
      (Takes.expectSymbol _ _).bind fun _ => .pure _

theorem condition_takes (opening closing : SyntaxError.Place) :
    Takes more stop closed (condition opening closing n) (condition opening closing n') :=
  (Takes.expectSymbol _ _).bind fun _ => Takes.extends_ <|
    .after (assignment_extended enough) fun _ => (Takes.expectSymbol _ _).bind fun _ => .pure _

theorem forInitializer_extends :
    Extends more stop False (forInitializer n) (forInitializer n') := by
  apply Extends.next.bind
  intro t
  split
  · exact Extends.advance.bind fun _ => .pure none
  · exact Extends.advance.bind fun _ => (varDeclaration_takes enough).extends_.map some
  · exact (expressionStatement_takes enough).extends_.map some

theorem parameters_extends (before : Nat) :
    Extends more stop False (parameters n before) (parameters n' before) := by
  induction n generalizing n' before with
  | zero => exact .exhausted
  | succ n ih =>
    cases n' with
    | zero => exact absurd enough (Nat.not_succ_le_zero n)
    | succ n' =>
    apply (Extends.boundArity _ _).bind
    intro _
    apply (Takes.expectName _).extends_.bind
    intro first
    apply (Extends.accept nofun).bind
    intro taken
    cases taken with
    | none => exact .pure [first]
    | some _ => exact (ih (Nat.le_of_succ_le_succ enough) _).bind fun _ => .pure _

end Simple

variable (more stop) in
/-- What the rules of statements give with the one budget they give with the other one where more tokens
follow. -/
structure StatementsExtend (n n' : Nat) : Prop where
  declaration : Takes more stop (NoElse more) (declaration n) (declaration n')
  classDeclaration : Takes more stop True (classDeclaration n) (classDeclaration n')
  methods : Extends more stop False (methods n) (methods n')
  routine : ∀ role, Takes more stop True (routine n role) (routine n' role)
  block : Takes more stop True (block n) (block n')
  blockDeclarations : Extends more stop False (blockDeclarations n) (blockDeclarations n')
  statement : Takes more stop (NoElse more) (statement n) (statement n')
  forStatement : Takes more stop (NoElse more) (forStatement n) (forStatement n')
  ifStatement : Takes more stop (NoElse more) (ifStatement n) (ifStatement n')
  whileStatement : Takes more stop (NoElse more) (whileStatement n) (whileStatement n')

section Steps

variable (all : StatementsExtend more stop n n')
include all

theorem declaration_takes (enough : n ≤ n') :
    Takes more stop (NoElse more) (declaration (n + 1)) (declaration (n' + 1)) := by
  apply recovering_takes
  apply Takes.after Extends.next
  intro t
  split
  · exact .after Extends.advance fun _ => all.classDeclaration.weaken
  · exact .after Extends.advance fun _ => ((all.routine _).map Stmt.function).weaken
  · exact .after Extends.advance fun _ => varDeclaration_takes enough
  · exact all.statement

theorem classDeclaration_takes :
    Takes more stop True (classDeclaration (n + 1)) (classDeclaration (n' + 1)) := by
  have parent : Extends more stop False (reference =<< expectName .ofSuperclass)
      (reference =<< expectName .ofSuperclass) :=
    (Takes.expectName _).extends_.bind fun t => .reference t
  exact (Takes.expectName _).bind fun _ => Takes.extends_ <|
    .after (.optionalAfter nofun parent) fun _ => (Takes.expectSymbol _ _).bind fun _ =>
      Takes.extends_ <| .after all.methods fun _ => (Takes.expectSymbol _ _).bind fun _ => .pure _

theorem methods_extends : Extends more stop False (methods (n + 1)) (methods (n' + 1)) := by
  apply Extends.atEnd.bind
  intro ended
  apply (Extends.sees _).bind
  intro seen
  split
  · exact .pure []
  · exact (all.routine _).extends_.inside.bind fun _ => all.methods.bind fun _ => .pure _

theorem routine_takes (enough : n ≤ n') (role : Routine) :
    Takes more stop True (routine (n + 1) role) (routine (n' + 1) role) :=
  (Takes.expectName _).bind fun _ => (Takes.expectSymbol _ _).extends_.bind fun _ =>
    Takes.extends_ <| .after (.listUnless _ (parameters_extends enough 0)) fun _ =>
      (Takes.expectSymbol _ _).bind fun _ => (Takes.expectSymbol _ _).extends_.bind fun _ =>
        all.block.extends_.bind fun _ => .pure _

theorem block_takes : Takes more stop True (block (n + 1)) (block (n' + 1)) :=
  .after all.blockDeclarations fun _ => (Takes.expectSymbol _ _).bind fun _ => .pure _

theorem blockDeclarations_extends :
    Extends more stop False (blockDeclarations (n + 1)) (blockDeclarations (n' + 1)) := by
  apply Extends.atEnd.bind
  intro ended
  apply (Extends.sees _).bind
  intro seen
  split
  · exact .pure []
  · exact all.declaration.extends_.inside.bind fun _ => all.blockDeclarations.bind fun _ => .pure _

theorem statement_takes (enough : n ≤ n') :
    Takes more stop (NoElse more) (statement (n + 1)) (statement (n' + 1)) := by
  apply Takes.after Extends.next
  intro t
  split
  · exact .after Extends.advance fun _ => all.forStatement
  · exact .after Extends.advance fun _ => all.ifStatement
  · exact .after Extends.advance fun _ => all.whileStatement
  · exact .after Extends.advance fun _ => returnStatement_takes enough t
  · exact .after Extends.advance fun _ => (all.block.map Stmt.block).weaken
  · exact .after Extends.advance fun _ => printStatement_takes enough
  · exact expressionStatement_takes enough

theorem forStatement_takes (enough : n ≤ n') :
    Takes more stop (NoElse more) (forStatement (n + 1)) (forStatement (n' + 1)) := by
  have closing (initializer : Option Stmt) (condition increment : Option Expr) :
      Takes more stop (NoElse more)
        (do
          expectSymbol .rightParen .afterForClauses
          return forLoop initializer condition increment (← statement n))
        (do
          expectSymbol .rightParen .afterForClauses
          return forLoop initializer condition increment (← statement n')) :=
    (Takes.expectSymbol _ _).bind fun _ => all.statement.extends_.bind fun _ => .pure _
  exact (Takes.expectSymbol _ _).bind fun _ => Takes.extends_ <|
    .after (forInitializer_extends enough) fun initializer =>
      .after (expressionUnless_extends enough _) fun condition =>
        (Takes.expectSymbol _ _).bind fun _ => Takes.extends_ <|
          .after (expressionUnless_extends enough _) fun increment =>
            closing initializer condition increment

theorem ifStatement_takes (enough : n ≤ n') :
    Takes more stop (NoElse more) (ifStatement (n + 1)) (ifStatement (n' + 1)) :=
  (condition_takes enough _ _).bind fun _ => all.statement.extends_.bind fun _ =>
    (Extends.optionalAfter id all.statement.extends_).bind fun _ => .pure _

theorem whileStatement_takes (enough : n ≤ n') :
    Takes more stop (NoElse more) (whileStatement (n + 1)) (whileStatement (n' + 1)) :=
  (condition_takes enough _ _).bind fun _ => all.statement.extends_.bind fun _ => .pure _

end Steps

/-- The rules of statements with a budget, and those with one that is at least as large. -/
theorem statementsExtend (more : List Token) (stop : Token) (enough : n ≤ n') :
    StatementsExtend more stop n n' := by
  induction n generalizing n' with
  | zero => constructor <;> intros <;> first | exact Takes.exhausted | exact Extends.exhausted
  | succ n ih =>
    cases n' with
    | zero => exact absurd enough (Nat.not_succ_le_zero n)
    | succ n' =>
    have enough := Nat.le_of_succ_le_succ enough
    have inner := ih enough
    exact ⟨declaration_takes inner enough, classDeclaration_takes inner, methods_extends inner,
      routine_takes inner enough, block_takes inner, blockDeclarations_extends inner,
      statement_takes inner enough, forStatement_takes inner enough, ifStatement_takes inner enough,
      whileStatement_takes inner enough⟩

theorem program_of_empty {c : Cursor} (empty : c.ahead = []) : program (n + 1) c = .ok [] c := by
  have ended : atEnd c = .ok true c := by simp only [atEnd, empty, List.isEmpty_nil]
  exact bind_of_ok ended

theorem program_of_left {c : Cursor} (left : c.ahead ≠ []) :
    program (n + 1) c =
      (do let first ← declaration n; return first.toList ++ (← program n)) c := by
  have ended : atEnd c = .ok false c := by
    simp only [atEnd, List.isEmpty_eq_false_iff.mpr left]
  exact bind_of_ok ended

/-- A program that is read without a report is read again where more tokens follow, and these are read
after it; `m` is a budget for them. -/
theorem program_extends {m : Nat} {c after last : Cursor} {body rest : List Stmt}
    (whole : Closed c) (read : program n c = .ok body after) (clean : after.reported = c.reported)
    (joint : NoElse more)
    (others : ∀ k, m ≤ k → program k (after.extended more stop) = .ok rest last)
    (enough : n ≤ n') (left : m + c.size ≤ n') :
    program n' (c.extended more stop) = .ok (body ++ rest) last := by
  induction n generalizing n' c body with
  | zero => cases read
  | succ n ih =>
    cases n' with
    | zero => exact absurd enough (Nat.not_succ_le_zero n)
    | succ n' =>
    have enough := Nat.le_of_succ_le_succ enough
    by_cases empty : c.ahead = []
    · rw [program_of_empty empty] at read
      cases read
      exact others _ (Nat.le_trans (Nat.le_add_right m _) left)
    · rw [program_of_left empty] at read
      obtain ⟨first, middle, given, read⟩ := bind_eq_ok read
      obtain ⟨body, _, read, ended⟩ := bind_eq_ok read
      cases ended
      obtain ⟨onward, found⟩ := ((statementsExtend more stop enough).declaration c).ok_of given
      have whole := onward.closed whole
      obtain ⟨further, _⟩ := (program_advances middle.ahead n ⟨List.Subset.refl _, whole⟩).ok_of read
      obtain ⟨clean₁, clean₂⟩ := reported_of_onward onward further clean
      obtain ⟨shorter, found⟩ := found clean₁
      have again := ih whole read clean₂ enough (by omega)
      have nonempty : (c.extended more stop).ahead ≠ [] := by simp [Cursor.extended, empty]
      rw [program_of_left nonempty, bind_of_ok (found fun _ => joint), bind_of_ok again,
        List.append_assoc]
      rfl

theorem Cursor.extended_nil {c : Cursor} (same : c.stop = stop) : c.extended [] stop = c := by
  rw [Cursor.extended, List.append_nil, ← same]

/-- A program that is read to its end without a report is read so with a larger budget. -/
theorem program_of_more {c after : Cursor} {body : List Stmt} (whole : Closed c)
    (read : program n c = .ok body after) (clean : after.reported = c.reported)
    (ended : after.ahead = []) (enough : n ≤ n') (left : 1 + c.size ≤ n') :
    program n' c = .ok body after := by
  obtain ⟨onward, _⟩ := (program_advances c.ahead n ⟨List.Subset.refl _, whole⟩).ok_of read
  have nothing (k : Nat) (some : 1 ≤ k) : program k (after.extended [] c.stop) = .ok [] after := by
    obtain ⟨k, rfl⟩ := Nat.exists_eq_add_of_le' some
    rw [Cursor.extended_nil onward.stop]
    exact program_of_empty ended
  have alone : NoElse [] := by rintro ⟨⟩
  have again := program_extends whole read clean alone nothing enough left
  rwa [Cursor.extended_nil rfl, List.append_nil] at again

end LoxLang.Grammar
